import ContextServer.HostLoop
import Mathlib.Data.List.DropRight

/-!
The lines of a text. What stands before a line feed is a line, and so is what is left after the last
one. The lines that are split off the octets of a text are the octets of its lines, since no octet of
another character is a line feed.
-/

namespace ContextServer

/-! ### Lines -/

/-- A line of a text: what stands in it, and whether a line feed ends it. -/
structure Line where
  content : List Char
  ended : Bool

namespace Line

/-- The line as it stands in the text. -/
def written (l : Line) : List Char := if l.ended then l.content ++ ['\n'] else l.content

def withoutReturn (content : List Char) : List Char :=
  if content.getLast? = some '\r' then content.dropLast else content

/-- What the line says: a carriage return before the line feed belongs to the end of the line. -/
def message (l : Line) : String :=
  String.ofList (if l.ended then withoutReturn l.content else l.content)

/-- The lines that the pieces between line feeds make: only the last piece has no line feed after it,
and it is no line if it is empty. -/
def ofPieces : List (List Char) → List Line
  | [] => []
  | [rest] => if rest = [] then [] else [⟨rest, false⟩]
  | piece :: next :: more => ⟨piece, true⟩ :: ofPieces (next :: more)

def ofText (text : String) : List Line := ofPieces (text.toList.splitOn '\n')

example : (ofText "a\r\n\n\rb").map message = ["a", "", "\rb"] := by decide

theorem content_mem_of_mem_ofPieces {pieces : List (List Char)} {l : Line} (h : l ∈ ofPieces pieces) :
    l.content ∈ pieces := by
  induction pieces using ofPieces.induct with
  | case1 => cases h
  | case2 => simp [ofPieces] at h
  | case3 rest hne =>
    simp only [ofPieces, hne, if_false, List.mem_singleton] at h
    simp [h]
  | case4 piece next more ih =>
    rcases List.mem_cons.mp h with rfl | hmore
    · exact List.mem_cons_self
    · exact List.mem_cons_of_mem _ (ih hmore)

theorem withoutEnd_written {l : Line} (h : '\n' ∉ l.content) :
    HostLoop.withoutEnd (String.ofList l.written) = l.message := by
  obtain ⟨content, ended⟩ := l
  cases ended with
  | true =>
    simp only [written, message, withoutReturn, HostLoop.withoutEnd, if_true, String.toList_ofList,
      List.reverse_append, List.reverse_singleton, List.singleton_append]
    rcases List.eq_nil_or_concat content with rfl | ⟨front, c, rfl⟩
    · rfl
    · by_cases hc : c = '\r'
      · simp [hc]
      · simp [hc]
  | false =>
    simp only [written, message, HostLoop.withoutEnd, Bool.false_eq_true, if_false,
      String.toList_ofList]
    -- a line without an end does not close with a line feed either, and so it loses nothing
    have hfirst (rest : List Char) : content.reverse ≠ '\n' :: rest := by
      intro he
      exact h (List.mem_reverse.mp (he ▸ List.mem_cons_self))
    split
    · rename_i he
      exact absurd he (hfirst _)
    · rename_i he
      exact absurd he (hfirst _)
    · rfl

end Line

theorem not_mem_of_mem_splitOn {a : Char} {text piece : List Char} (h : piece ∈ text.splitOn a) :
    a ∉ piece := by
  induction text generalizing piece with
  | nil =>
    rw [List.splitOn_nil, List.mem_singleton] at h
    simp [h]
  | cons c text ih =>
    rw [List.splitOn_cons_eq_if_modifyHead] at h
    split at h
    · rcases List.mem_cons.mp h with rfl | hmore
      · exact List.not_mem_nil
      · exact ih hmore
    · rename_i hne
      obtain ⟨first, more, hsplit⟩ := List.exists_cons_of_ne_nil (List.splitOn_ne_nil a text)
      rw [hsplit, List.modifyHead_cons] at h
      rw [hsplit] at ih
      rcases List.mem_cons.mp h with rfl | hmore
      · have hfirst := ih List.mem_cons_self
        simp only [List.mem_cons, not_or]
        exact ⟨fun he => hne (by simp [he]), hfirst⟩
      · exact ih (List.mem_cons_of_mem _ hmore)

theorem Line.newline_not_mem {text : String} {l : Line} (h : l ∈ ofText text) : '\n' ∉ l.content :=
  not_mem_of_mem_splitOn (content_mem_of_mem_ofPieces h)

/-! ### Octets -/

namespace Utf8

def encodeChars (text : List Char) : List UInt8 := text.flatMap String.utf8EncodeChar

theorem encode_ofList (text : List Char) : encode (String.ofList text) = encodeChars text := by
  rw [encode, String.toUTF8_eq_toByteArray, String.toByteArray_ofList, List.utf8Encode,
    List.toList_data_toByteArray, encodeChars]

theorem encode_eq (text : String) : encode text = encodeChars text.toList := by
  rw [← encode_ofList, String.ofList_toList]

theorem encode_append (s t : String) : encode (s ++ t) = encode s ++ encode t := by
  simp only [encode_eq, encodeChars, String.toList_append, List.flatMap_append]

/-- Octets are UTF-8 just when they are the octets of a text. -/
theorem decode_eq_ok_iff {bytes : List UInt8} {text : String} :
    decode bytes = .ok text ↔ bytes = encode text := by
  constructor
  · intro h
    unfold decode at h
    split at h
    · rename_i read hread
      cases h
      unfold String.fromUTF8? at hread
      split at hread
      · rw [← Option.some.inj hread]
        rfl
      · cases hread
    · cases h
  · rintro rfl
    have hbytes : ByteArray.mk (encode text).toArray = text.toUTF8 := by
      rw [encode, Array.toArray_toList]
    have hread : String.fromUTF8? text.toUTF8 = some text := by
      simp only [String.fromUTF8?, String.toUTF8_eq_toByteArray, dif_pos text.isValidUTF8]
      rfl
    rw [decode, hbytes, hread]

/-- The octets of a character outside ASCII are marked by their high bit. -/
theorem high_of_mem {c : Char} (h : ¬c.val.toNat ≤ 127) :
    ∀ b ∈ String.utf8EncodeChar c, 128 ≤ b.toNat := by
  unfold String.utf8EncodeChar
  dsimp only
  rw [if_neg h]
  split_ifs <;> simp <;> omega

/-- The octet of a line feed is in the octets of no other character. -/
theorem eq_newline_of_mem {c : Char} (h : 10 ∈ String.utf8EncodeChar c) : c = '\n' := by
  by_cases hascii : c.val.toNat ≤ 127
  · rw [String.utf8EncodeChar, if_pos hascii, List.mem_singleton] at h
    have hcode := congrArg UInt8.toNat h
    rw [UInt8.toNat_ofNat_of_lt' (Nat.lt_of_le_of_lt hascii (by decide))] at hcode
    rw [← Char.ofNat_toNat c, Char.toNat, ← hcode]
    rfl
  · exact absurd (high_of_mem hascii 10 h) (by decide)

theorem newline_not_mem_encodeChars {text : List Char} (h : '\n' ∉ text) : 10 ∉ encodeChars text := by
  intro hmem
  obtain ⟨c, hc, hbyte⟩ := List.mem_flatMap.mp hmem
  exact h (eq_newline_of_mem hbyte ▸ hc)

end Utf8

/-! ### Splitting octets -/

namespace HostLoop

theorem splitLines_line {bytes : List UInt8} (h : 10 ∉ bytes) (rest : List UInt8) :
    splitLines (bytes ++ 10 :: rest) = (bytes ++ [10]) :: splitLines rest := by
  induction bytes with
  | nil => rfl
  | cons b bytes ih =>
    obtain ⟨hb, hbytes⟩ : ¬10 = b ∧ 10 ∉ bytes := by simpa using h
    have htail := ih hbytes
    rw [splitLines] at htail
    rw [List.cons_append, splitLines, List.foldr_cons, htail, if_neg (Ne.symm hb), List.cons_append]

theorem splitLines_rest {bytes : List UInt8} (h : 10 ∉ bytes) :
    splitLines bytes = if bytes = [] then [] else [bytes] := by
  induction bytes with
  | nil => rfl
  | cons b bytes ih =>
    obtain ⟨hb, hbytes⟩ : ¬10 = b ∧ 10 ∉ bytes := by simpa using h
    have htail := ih hbytes
    rw [splitLines] at htail
    rw [splitLines, List.foldr_cons, htail, if_neg (Ne.symm hb)]
    cases bytes <;> rfl

theorem splitLines_pieces {pieces : List (List Char)} (h : ∀ piece ∈ pieces, '\n' ∉ piece) :
    splitLines (Utf8.encodeChars (['\n'].intercalate pieces)) =
      (Line.ofPieces pieces).map fun l => Utf8.encodeChars l.written := by
  induction pieces using Line.ofPieces.induct with
  | case1 => rfl
  | case2 => rfl
  | case3 rest hne =>
    have hbytes := Utf8.newline_not_mem_encodeChars (h rest List.mem_cons_self)
    have hsome : Utf8.encodeChars rest ≠ [] := by
      obtain ⟨c, more, rfl⟩ := List.exists_cons_of_ne_nil hne
      simp [Utf8.encodeChars, String.utf8EncodeChar_ne_nil]
    rw [List.intercalate_singleton, splitLines_rest hbytes, if_neg hsome, Line.ofPieces, if_neg hne]
    rfl
  | case4 piece next more ih =>
    have hpiece := Utf8.newline_not_mem_encodeChars (h piece List.mem_cons_self)
    have hmore := ih fun p hp => h p (List.mem_cons_of_mem _ hp)
    have hcut : Utf8.encodeChars (['\n'].intercalate (piece :: next :: more)) =
        Utf8.encodeChars piece ++ 10 :: Utf8.encodeChars (['\n'].intercalate (next :: more)) := by
      rw [List.intercalate_cons_cons, Utf8.encodeChars, List.flatMap_append, List.flatMap_append,
        List.append_assoc]
      rfl
    rw [hcut, splitLines_line hpiece, hmore, Line.ofPieces, List.map_cons]
    simp [Line.written, Utf8.encodeChars, String.utf8EncodeChar]

/-- The lines split off the octets of a text are the octets of its lines. -/
theorem splitLines_encode (text : String) :
    splitLines (Utf8.encode text) =
      (Line.ofText text).map fun l => Utf8.encode (String.ofList l.written) := by
  have hapart : ∀ piece ∈ text.toList.splitOn '\n', '\n' ∉ piece :=
    fun piece hpiece => not_mem_of_mem_splitOn hpiece
  have hpieces := splitLines_pieces hapart
  rw [List.intercalate_splitOn] at hpieces
  rw [Utf8.encode_eq, hpieces, Line.ofText]
  simp only [Utf8.encode_ofList]

end HostLoop

/-! ### Blank lines -/

/-- A text without the white space that it begins and ends with. -/
def trimmed (text : List Char) : List Char :=
  (text.dropWhile isWhiteSpace).rdropWhile isWhiteSpace

theorem isBlankText_eq (text : String) : isBlankText text = decide (trimmed text.toList = []) := by
  rw [Bool.eq_iff_iff, decide_eq_true_eq, isBlankText, List.all_eq_true, trimmed,
    List.rdropWhile_eq_nil_iff]
  constructor
  · intro h c hc
    exact h c ((List.dropWhile_sublist _).subset hc)
  · intro h
    -- what is left from the first character that is no white space on would begin with white space
    rw [← List.dropWhile_eq_nil_iff]
    by_contra hne
    have hhead := List.head_dropWhile_not isWhiteSpace hne
    rw [h _ (List.head_mem hne)] at hhead
    cases hhead

end ContextServer
