import ContextServer.Proofs.Notifications.Issued

/-!
The stream of notifications. What the host has drained, followed by what is still queued, is at every
moment what the run has issued: nothing is lost, told twice or told out of turn.
-/

namespace ContextServer

variable {Device : Type}

def Returned.notifications? : Returned → Option (List String)
  | .notifications lines => some lines
  | _ => none

/-- The server knows what the client last asked for. -/
structure Follows (past : List (Moment Device)) (s : Server Device) : Prop where
  subscriptions : ∀ uri, s.notifier.isSubscribed uri = isFollowed past uri
  threshold : s.threshold = thresholdAfter past

/-- A step that hands out and queues what its moment issues, after what was queued before, and that
leaves a server that knows what the client last asked for. -/
structure Issues (past : List (Moment Device)) (moment : Moment Device)
    (r : Step Device (List Returned)) : Prop where
  follows : Follows (past ++ [moment]) r.server
  stream : (r.value.filterMap Returned.notifications?).flatten
      ++ r.server.notifier.queue.map Notification.text =
    moment.server.notifier.queue.map Notification.text
      ++ (issuedAfter past moment).map Notification.text

theorem Follows.quiet {past : List (Moment Device)} {s t : Server Device} {moment : Moment Device}
    (h : Follows past s) (hfollows : ∀ uri, moment.follows? uri = none)
    (hthreshold : moment.threshold? = none)
    (subscriptions : t.notifier.subscriptions = s.notifier.subscriptions)
    (threshold : t.threshold = s.threshold) : Follows (past ++ [moment]) t where
  subscriptions uri := by
    unfold isFollowed Notifier.isSubscribed
    rw [latest?_append, hfollows, subscriptions]
    exact h.subscriptions uri
  threshold := by
    unfold thresholdAfter
    rw [latest?_append, hthreshold, threshold]
    exact h.threshold

/-! ### Calls of the host -/

theorem perform_follows (s : Server Device) (device : Device) (c : HostCall Device) :
    (s.perform device c).server.notifier.subscriptions = s.notifier.subscriptions ∧
      (s.perform device c).server.threshold = s.threshold := by
  cases c with
  | log level logger data =>
    simp only [Server.perform, Server.flagged, Server.log]
    split <;> exact ⟨rfl, rfl⟩
  | setGroupEnabled group enabled =>
    refine ⟨?_, rfl⟩
    simp only [Server.perform, Server.flagged, Server.setGroupEnabled]
    split <;> rfl
  | resourceUpdated uri =>
    refine ⟨?_, rfl⟩
    simp only [Server.perform, Server.flagged, Server.resourceUpdated, Notifier.resourceUpdated]
    split <;> rfl
  | _ => exact ⟨rfl, rfl⟩

theorem call_issues {past : List (Moment Device)} {s : Server Device} (h : Follows past s)
    (device : Device) (c : HostCall Device) :
    Issues past ⟨s, device, .call c⟩ (s.move device (.call c)) := by
  obtain ⟨hsubscriptions, hthreshold⟩ := perform_follows s device c
  refine ⟨h.quiet (fun _ => rfl) rfl hsubscriptions hthreshold, ?_⟩
  cases c with
  | drainNotifications =>
    simp [Server.move, Step.map, Server.perform, Server.drainNotifications, Notifier.drain,
      Returned.notifications?, issuedAfter]
  | resourceUpdated uri =>
    have hfollowed := h.subscriptions uri
    simp only [Server.move, Step.map, Server.perform, Server.flagged, Server.resourceUpdated,
      Notifier.resourceUpdated, Notification.resourceUpdated, issuedAfter, hfollowed]
    split <;> simp [Returned.notifications?, Notifier.push]
  | log level logger data =>
    simp only [Server.move, Step.map, Server.perform, Server.flagged, Server.log, issuedAfter,
      LogLevel.notification?_eq, h.threshold]
    by_cases hreaches : level.Reaches (thresholdAfter past)
    · simp [hreaches, Returned.notifications?, Notifier.push]
    · simp [hreaches, Returned.notifications?]
  | setGroupEnabled group enabled =>
    simp only [Server.move, Step.map, Server.perform, Server.flagged, Server.setGroupEnabled,
      ListKind.changed_eq, issuedAfter, ToolGroups.setEnabled_fst]
    split <;> simp [Returned.notifications?, Notifier.push]
  | listChanged kind =>
    simp [Server.move, Step.map, Server.perform, Server.listChanged, Notifier.push,
      ListKind.changed_eq, Returned.notifications?, issuedAfter]
  | reportProgress token report =>
    simp [Server.move, Step.map, Server.perform, Server.reportProgress, Notifier.push,
      Notification.progress_eq, Returned.notifications?, issuedAfter]
  | _ => exact (List.append_nil _).symm

/-! ### Messages -/

/-- A call queues the progress of the tool that it runs. -/
theorem callTool_queue (s : Server Device) (device : Device) (readings : Readings) (id : RequestId)
    (params : Json) :
    (s.callTool device readings id params).server.notifier =
      s.notifier.pushAll
        (match s.runs? readings params, (clientToken? params).bind Json.tokenText? with
        | some (tool, arguments), some token =>
          (tool.reports arguments ⟨id, some token⟩ device).map (ProgressReport.notice token)
        | _, _ => []) := by
  have hnone : s.notifier.pushAll [] = s.notifier := by simp [Notifier.pushAll]
  unfold Server.callTool Server.runs?
  cases params.stringAt? "name" with
  | none => exact hnone.symm
  | some name =>
    dsimp only
    cases s.findTool name with
    | error fault => exact hnone.symm
    | ok tool =>
      dsimp only
      rw [ResultCache.lookup_fst]
      cases s.cache.found? name (Json.arguments (params.field "arguments").value?) readings.lookup with
      | some entry => exact hnone.symm
      | none =>
        simp only [Option.map_none, Step.map, Server.runTool, Tool.call_progress,
          progressToken?_eq]
        cases (clientToken? params).bind Json.tokenText? <;> rfl

/-- Following a URI, or ceasing to, queues nothing and changes what is followed for that URI alone. -/
theorem setSubscription_notifier (s : Server Device) (device : Device) (subscribe : Bool)
    (params : Json) :
    (s.setSubscription device subscribe params).server.notifier.queue = s.notifier.queue ∧
      ∀ uri, (s.setSubscription device subscribe params).server.notifier.isSubscribed uri =
        if params.stringAt? "uri" = some uri then subscribe else s.notifier.isSubscribed uri := by
  unfold Server.setSubscription
  cases params.stringAt? "uri" with
  | none => exact ⟨rfl, fun uri => by simp [Server.unchanged]⟩
  | some named =>
    cases subscribe with
    | true =>
      refine ⟨rfl, fun uri => ?_⟩
      simp only [Server.unchanged, if_true, Notifier.subscribe, Notifier.isSubscribed,
        NameList.contains_add]
      by_cases h : named = uri
      · simp [h]
      · simp [h, Ne.symm h]
    | false =>
      refine ⟨rfl, fun uri => ?_⟩
      simp only [Server.unchanged, Bool.false_eq_true, if_false, Notifier.unsubscribe,
        Notifier.isSubscribed, NameList.contains_drop]
      by_cases h : named = uri
      · simp [h]
      · simp [h, Ne.symm h]

theorem setLevel_threshold (s : Server Device) (device : Device) (params : Json) :
    (s.setLevel device params).server.threshold =
      (((params.field "level").value?.map fun level => LogLevel.meant (level.string?.getD "")).getD
        s.threshold) := by
  unfold Server.setLevel
  simp only [LogLevel.ofName_eq]
  cases params.field "level" <;> rfl

section Served

variable {past : List (Moment Device)} {s : Server Device} {readings : Readings} {v : Json}
  {id : RequestId} {params : Option Json} {m : Method}

/-- A subscription that is carried out is the last that was asked for its URI. -/
theorem Follows.subscribed (h : Follows past s) (device : Device) (subscribe : Bool)
    (limiter : TokenBucket Float) (hm : m ≠ .setLevel)
    (carried : s.carriesOut? readings v = some (id, params, m))
    (follows : ∀ uri, (Moment.mk s device (.message readings v)).follows? uri =
      if (params.getD .null).stringAt? "uri" = some uri then some subscribe else none) :
    Follows (past ++ [⟨s, device, .message readings v⟩])
      (({ s with limiter } : Server Device).setSubscription device subscribe
        (params.getD .null)).server where
  subscriptions uri := by
    have hchange := (setSubscription_notifier { s with limiter } device subscribe
      (params.getD .null)).2 uri
    unfold isFollowed
    rw [hchange, latest?_append, follows]
    split
    · rfl
    · exact h.subscriptions uri
  threshold := by
    have hkept := (({ s with limiter } : Server Device).setSubscription_frame device subscribe
      (params.getD .null)).threshold (by simp)
    have hnone : (Moment.mk s device (.message readings v)).threshold? = none := by
      simp only [Moment.threshold?, carried]
      cases m with
      | setLevel => exact absurd rfl hm
      | _ => rfl
    unfold thresholdAfter
    rw [hkept, latest?_append, hnone]
    exact h.threshold

theorem serve_issues (h : Follows past s) (device : Device) (limiter : TokenBucket Float)
    (carried : s.carriesOut? readings v = some (id, params, m)) :
    Follows (past ++ [⟨s, device, .message readings v⟩])
        (({ s with limiter } : Server Device).serve device readings id params m).server ∧
      (({ s with limiter } : Server Device).serve device readings id params m).server.notifier.queue =
        s.notifier.queue ++ s.progressOf device readings v := by
  have frame := ({ s with limiter } : Server Device).serve_frame device readings id params m
  cases m with
  | callTool =>
    have hqueue := callTool_queue { s with limiter } device readings id (params.getD .null)
    refine ⟨h.quiet (fun uri => ?_) ?_ ?_ (frame.threshold (by simp)), ?_⟩
    · simp only [Moment.follows?, carried]
    · simp only [Moment.threshold?, carried]
    · have hsame := congrArg Notifier.subscriptions hqueue
      exact hsame
    · simp only [Server.progressOf, carried]
      exact congrArg Notifier.queue hqueue
  | subscribe =>
    refine ⟨h.subscribed device true limiter (by simp) carried fun uri => ?_, ?_⟩
    · simp only [Moment.follows?, carried]
    · simp only [Server.progressOf, carried, List.append_nil]
      exact (setSubscription_notifier { s with limiter } device true (params.getD .null)).1
  | unsubscribe =>
    refine ⟨h.subscribed device false limiter (by simp) carried fun uri => ?_, ?_⟩
    · simp only [Moment.follows?, carried]
    · simp only [Server.progressOf, carried, List.append_nil]
      exact (setSubscription_notifier { s with limiter } device false (params.getD .null)).1
  | setLevel =>
    have hnotifier := frame.notifier (by simp) (by simp) (by simp)
    refine ⟨⟨fun uri => ?_, ?_⟩, ?_⟩
    · unfold isFollowed
      rw [hnotifier, latest?_append]
      simp only [Moment.follows?, carried]
      exact h.subscriptions uri
    · have hset := setLevel_threshold { s with limiter } device (params.getD .null)
      unfold thresholdAfter
      rw [latest?_append]
      simp only [Moment.threshold?, carried]
      refine hset.trans ?_
      cases ((params.getD .null).field "level").value? with
      | none => exact h.threshold
      | some level => rfl
    · rw [hnotifier]
      simp only [Server.progressOf, carried, List.append_nil]
  | _ =>
    have hnotifier := frame.notifier (by simp) (by simp) (by simp)
    refine ⟨h.quiet (fun uri => ?_) ?_ (congrArg Notifier.subscriptions hnotifier)
      (frame.threshold (by simp)), ?_⟩
    · simp only [Moment.follows?, carried]
    · simp only [Moment.threshold?, carried]
    · rw [hnotifier]
      simp only [Server.progressOf, carried, List.append_nil]

end Served

/-- A message that has nothing carried out asks for nothing and issues nothing. -/
theorem idle_issues {past : List (Moment Device)} {s t : Server Device} (h : Follows past s)
    (device : Device) (readings : Readings) (v : Json) (carried : s.carriesOut? readings v = none)
    (notifier : t.notifier = s.notifier) (threshold : t.threshold = s.threshold) :
    Follows (past ++ [⟨s, device, .message readings v⟩]) t ∧
      t.notifier.queue = s.notifier.queue ++ s.progressOf device readings v := by
  refine ⟨h.quiet (fun uri => ?_) ?_ (congrArg Notifier.subscriptions notifier) threshold, ?_⟩
  · simp only [Moment.follows?, carried]
  · simp only [Moment.threshold?, carried]
  · rw [notifier]
    simp only [Server.progressOf, carried, List.append_nil]

theorem message_issues {past : List (Moment Device)} {s : Server Device} (h : Follows past s)
    (device : Device) (readings : Readings) (v : Json) :
    Issues past ⟨s, device, .message readings v⟩ (s.move device (.message readings v)) := by
  have hreceive : Follows (past ++ [⟨s, device, .message readings v⟩])
        (s.receive device readings v).server ∧
      (s.receive device readings v).server.notifier.queue =
        s.notifier.queue ++ s.progressOf device readings v := by
    cases s.receive_handled device readings v with
    | served id params m limiter carried step =>
      obtain ⟨f, hf⟩ := step
      rw [hf]
      exact serve_issues h device limiter carried
    | answered reply carried message step =>
      have frame := s.receiveAnswer_frame device reply
      simp only [step, Step.map]
      rw [frame]
      exact idle_issues h device readings v carried rfl rfl
    | idle limiter phase inFlight carried message server device' events =>
      rw [server]
      exact idle_issues h device readings v carried rfl rfl
  refine ⟨hreceive.1, ?_⟩
  simp only [Server.move, Step.map, List.filterMap_nil, List.flatten_nil, List.nil_append,
    hreceive.2, List.map_append, issuedAfter]

/-! ### Whole runs -/

theorem move_issues {past : List (Moment Device)} {s : Server Device} (h : Follows past s)
    (device : Device) (m : Move Device) : Issues past ⟨s, device, m⟩ (s.move device m) := by
  cases m with
  | call c => exact call_issues h device c
  | message readings v => exact message_issues h device readings v

/-- A history adds what it issues to the end of the stream. -/
theorem play_issues {past : List (Moment Device)} {s : Server Device} (h : Follows past s)
    (device : Device) (history : List (Move Device)) :
    ((s.play device history).value.filterMap Returned.notifications?).flatten
        ++ (s.play device history).server.notifier.queue.map Notification.text =
      s.notifier.queue.map Notification.text
        ++ (collect issuedAfter past (s.moments device history)).map Notification.text := by
  induction history generalizing past s device with
  | nil => exact (List.append_nil _).symm
  | cons m rest ih =>
    -- what the first move leaves queued is what the rest of the history starts from
    have step := move_issues h device m
    have more := ih step.follows (s.move device m).device
    calc ((s.play device (m :: rest)).value.filterMap Returned.notifications?).flatten
          ++ (s.play device (m :: rest)).server.notifier.queue.map Notification.text
        = ((s.move device m).value.filterMap Returned.notifications?).flatten
          ++ ((((s.move device m).server.play (s.move device m).device rest).value.filterMap
              Returned.notifications?).flatten
            ++ ((s.move device m).server.play (s.move device m).device
              rest).server.notifier.queue.map Notification.text) := by
          rw [Server.play_cons, List.filterMap_append, List.flatten_append, List.append_assoc]
      _ = ((s.move device m).value.filterMap Returned.notifications?).flatten
          ++ (s.move device m).server.notifier.queue.map Notification.text
          ++ (collect issuedAfter (past ++ [⟨s, device, m⟩])
            ((s.move device m).server.moments (s.move device m).device rest)).map
              Notification.text := by
          rw [more, List.append_assoc]
      _ = s.notifier.queue.map Notification.text
          ++ (collect issuedAfter past (s.moments device (m :: rest))).map Notification.text := by
          rw [step.stream, List.append_assoc, Server.moments, collect, List.map_append]

/-- What a run has drained, followed by what it leaves queued, is what it has issued, in order. -/
theorem notifications_streamed (options : ServerOptions) (now : Instant) (device : Device)
    (actions : List (Action Device)) :
    let server : Server Device := .ofOptions options now
    let run := server.run device actions
    (run.value.filterMap Returned.notifications?).flatten
        ++ run.server.notifier.queue.map Notification.text =
      (collect issuedAfter [] (server.moments device (Action.history actions))).map
        Notification.text := by
  intro server run
  have start : Follows ([] : List (Moment Device)) server := ⟨fun _ => rfl, rfl⟩
  have stream := play_issues start device (Action.history actions)
  rw [← Server.run_eq_play] at stream
  exact stream

/-- A tool that reports two steps. -/
def twoSteps : Tool Unit where
  name := "t"
  description := ""
  inputSchema := .object []
  handler := .reporting fun _ _ device =>
    (⟨[⟨1, 2, "one"⟩, ⟨2, 2, ""⟩], .returned (.ofText "done")⟩, device)

/-- A client follows `u` and calls the tool under a token that is a number. The host tells of `u` and
`v`, drains, logs twice and tells of the tools. -/
def busyRun : List (Action Unit) := [
  .call (.addTool twoSteps),
  .inbound (fun _ => ⟨0, 0, 0, 0, ""⟩)
    "\x7b\"jsonrpc\":\"2.0\",\"method\":\"resources/subscribe\",\"params\":\x7b\"uri\":\"u\"\x7d\x7d",
  .call (.resourceUpdated "u"),
  .call (.resourceUpdated "v"),
  .call .drainNotifications,
  .call (.log .notice "host" .null),
  .call (.log .error "host" .null),
  .inbound (fun _ => ⟨0, 0, 0, 0, ""⟩)
    ("\x7b\"jsonrpc\":\"2.0\",\"id\":1,\"method\":\"tools/call\"," ++
      "\"params\":\x7b\"name\":\"t\",\"_meta\":\x7b\"progressToken\":5\x7d\x7d\x7d"),
  .call (.listChanged .tools)]

/-- The change of `v`, which is not followed, and the log below the threshold are not told. -/
theorem busyRun_streamed :
    let run := (Server.ofOptions {} 0 : Server Unit).run () busyRun
    (run.value.filterMap Returned.notifications?).flatten
        ++ run.server.notifier.queue.map Notification.text =
      ["\x7b\"jsonrpc\":\"2.0\",\"method\":\"notifications/resources/updated\"," ++
          "\"params\":\x7b\"uri\":\"u\"\x7d\x7d",
        "\x7b\"jsonrpc\":\"2.0\",\"method\":\"notifications/message\"," ++
          "\"params\":\x7b\"data\":null,\"level\":\"error\",\"logger\":\"host\"\x7d\x7d",
        "\x7b\"jsonrpc\":\"2.0\",\"method\":\"notifications/progress\",\"params\":" ++
          "\x7b\"message\":\"one\",\"progress\":1.0,\"progressToken\":\"5\",\"total\":2.0\x7d\x7d",
        "\x7b\"jsonrpc\":\"2.0\",\"method\":\"notifications/progress\",\"params\":" ++
          "\x7b\"progress\":2.0,\"progressToken\":\"5\",\"total\":2.0\x7d\x7d",
        "\x7b\"jsonrpc\":\"2.0\",\"method\":\"notifications/tools/list_changed\"\x7d"] := by
  refine (notifications_streamed {} 0 () busyRun).trans ?_
  decide +kernel

end ContextServer
