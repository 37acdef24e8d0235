import ContextServer.Base64
import ContextServer.Json.Basic

/-!
What tools and prompts produce: content items, the result of a tool call, and the icons that clients
show. Objects have their members in the order of the protocol's own description; what a reply carries
is brought into canonical order later.
-/

namespace ContextServer

/-- A member that is left out if there is nothing to say. -/
def optionalMember (key : String) (value : Option Json) : List (String × Json) :=
  (value.map fun v => (key, v)).toList

/-- A picture for a client's menus. -/
structure Icon where
  src : String
  mimeType : Option String := none
  sizes : List String := []
  theme : Option String := none

def Icon.toJson (icon : Icon) : Json :=
  .object ([("src", .string icon.src)]
    ++ optionalMember "mimeType" (icon.mimeType.map .string)
    ++ (if icon.sizes.isEmpty then [] else [("sizes", .strings icon.sizes)])
    ++ optionalMember "theme" (icon.theme.map .string))

/-- The member that lists icons, if there are any. -/
def iconsMember (icons : List Icon) : List (String × Json) :=
  if icons.isEmpty then [] else [("icons", .array (icons.map Icon.toJson))]

inductive Role where
  | user
  | assistant
  deriving DecidableEq

def Role.name : Role → String
  | user => "user"
  | assistant => "assistant"

/-- The payload of an embedded resource: text, or octets in base64. -/
inductive ResourceBody where
  | text (text : String)
  | blob (base64 : String)

inductive Content where
  | text (text : String)
  | image (base64 mimeType : String)
  | audio (base64 mimeType : String)
  | resource (uri mimeType : String) (body : ResourceBody)
  | resourceLink (uri name : String) (mimeType description : Option String)

namespace Content

def imageOfBytes (bytes : List UInt8) (mimeType : String) : Content :=
  image (Base64.encode bytes) mimeType

def audioOfBytes (bytes : List UInt8) (mimeType : String) : Content :=
  audio (Base64.encode bytes) mimeType

def resourceText (uri mimeType text : String) : Content := resource uri mimeType (.text text)

def resourceBlob (uri mimeType : String) (bytes : List UInt8) : Content :=
  resource uri mimeType (.blob (Base64.encode bytes))

/-- An item as it is sent: its type first. -/
def toJson : Content → Json
  | text t => .object [("type", .string "text"), ("text", .string t)]
  | image base64 mime =>
    .object [("type", .string "image"), ("data", .string base64), ("mimeType", .string mime)]
  | audio base64 mime =>
    .object [("type", .string "audio"), ("data", .string base64), ("mimeType", .string mime)]
  | resource uri mime body =>
    let payload := match body with
      | .text t => ("text", Json.string t)
      | .blob b => ("blob", Json.string b)
    .object [("type", .string "resource"),
      ("resource", .object [("uri", .string uri), ("mimeType", .string mime), payload])]
  | resourceLink uri name mime description =>
    .object ([("type", .string "resource_link"), ("uri", .string uri), ("name", .string name)]
      ++ optionalMember "mimeType" (mime.map .string)
      ++ optionalMember "description" (description.map .string))

end Content

structure ToolResult where
  content : List Content := []
  structured : Option Json := none
  isError : Bool := false

namespace ToolResult

def ofText (text : String) : ToolResult := { content := [.text text] }

/-- A failed call, told in one text. -/
def ofError (message : String) : ToolResult := { content := [.text message], isError := true }

/-- An item after a describing text, which is left out if it is empty. -/
def described (description : String) (item : Content) : ToolResult :=
  { content := (if description.isEmpty then [] else [.text description]) ++ [item] }

def push (r : ToolResult) (item : Content) : ToolResult := { r with content := r.content ++ [item] }

def toJson (r : ToolResult) : Json :=
  .object ([("content", .array (r.content.map Content.toJson))]
    ++ optionalMember "structuredContent" r.structured
    ++ (if r.isError then [("isError", .bool true)] else []))

end ToolResult

end ContextServer
