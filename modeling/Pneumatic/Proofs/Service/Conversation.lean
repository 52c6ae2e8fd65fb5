import Pneumatic.CommandLine.Execution
import Pneumatic.Proofs.Except
import Mathlib.Data.List.Forall2

/-!
# Conversations

Lines come over a connection one after the other, and the runs go on between them.  Every line
that is not blank gets one reply, in order, with the identifier of its request.  Before a handshake
succeeds every other request is refused, and afterwards none is refused for want of a handshake.
Only commands to run and to stop, after a handshake, change anything.
-/

namespace Pneumatic.Service

/-! ## Requests and replies -/

namespace Request

/-- A handshake for this version of the protocol, from a client with a name. -/
def Greets (request : Request) : Prop :=
  request.command = "handshake" ∧ (request.text? "client").isSome = true ∧
    request.text? "protocol_version" = some protocolVersion

instance (request : Request) : Decidable request.Greets :=
  inferInstanceAs (Decidable (_ ∧ _ ∧ _))

/-- A handshake that leaves out who asks, or for which version. -/
def IsVague (request : Request) : Prop :=
  request.command = "handshake" ∧
    (request.text? "client" = none ∨ request.text? "protocol_version" = none)

instance (request : Request) : Decidable request.IsVague :=
  inferInstanceAs (Decidable (_ ∧ (_ ∨ _)))

end Request

namespace Reply

/-- The code of the error that a reply reports. -/
def code? (reply : Reply) : Option String :=
  (reply.toJson.get? "error").bind fun error => (error.get? "code").bind Json.text?

@[simp] theorem code?_error (id : Json) (refusal : Refusal) :
    code? ⟨id, .error refusal⟩ = some refusal.code := rfl

/-- What is sent has an identifier, and either a result or an error. -/
structure WellFormed (json : Json) (id : Json) : Prop where
  id : json.get? "id" = some id
  either : (json.get? "result").isSome = !(json.get? "error").isSome

theorem wellFormed_toJson (reply : Reply) : WellFormed reply.toJson reply.id := by
  obtain ⟨id, outcome⟩ := reply
  cases outcome with
  | ok result => exact ⟨rfl, rfl⟩
  | error refusal => exact ⟨rfl, rfl⟩

end Reply

/-! ## Commands -/

/-- Whatever fails does not fail because of the protocol. -/
def Agreed {α : Type} (result : Except Refusal α) : Prop :=
  ∀ refusal, result = .error refusal → refusal.code ≠ "protocol_error"

theorem Agreed.ok {α : Type} (value : α) : Agreed (.ok value) :=
  nofun

theorem Agreed.error {α : Type} {refusal : Refusal} (other : refusal.code ≠ "protocol_error") :
    Agreed (.error refusal : Except Refusal α) := by
  rintro _ ⟨⟩
  exact other

theorem Agreed.code?_ne {outcome : Answer} (agreed : Agreed outcome) (id : Json) :
    Reply.code? ⟨id, outcome⟩ ≠ some "protocol_error" := by
  cases outcome with
  | ok result => nofun
  | error refusal =>
      rw [Reply.code?_error, Ne, Option.some_inj]
      exact agreed refusal rfl

theorem Agreed.bind {α β : Type} {first : Except Refusal α} {next : α → Except Refusal β}
    (agreed : Agreed first) (later : ∀ value, Agreed (next value)) : Agreed (first >>= next) := by
  intro refusal fails
  rcases of_bind_eq_error fails with now | ⟨value, -, fails⟩
  · exact agreed refusal now
  · exact later value refusal fails

namespace Request

variable {σ : Type} (request : Request)

theorem agreed_text (name : String) : Agreed (request.text name) := by
  unfold text
  split
  · exact .ok _
  · exact .error (by simp [Refusal.code])

theorem agreed_project (site : Site σ) : Agreed (request.project site) := by
  unfold project
  split
  · intro refusal fails
    obtain ⟨own, -, rfl⟩ := of_mapError_eq_error fails
    simp [Refusal.code]
  · exact .ok _

theorem agreed_tier : Agreed request.tier := by
  unfold tier
  dsimp only
  split
  · exact .ok _
  · exact .error (by simp [Refusal.code])

end Request

namespace Command

variable {σ : Type} (site : Site σ) (request : Request) (schedule : Run.Schedule σ)

/-- A handshake succeeds, or something is missing, or it is for another version. -/
theorem handshake_cases :
    (∃ client, request.text? "client" = some client ∧
      request.text? "protocol_version" = some protocolVersion ∧
      ∃ result, handshake request = .ok result) ∨
    (∃ name, (request.text? "client" = none ∨ request.text? "protocol_version" = none) ∧
      handshake request = .error (.parameter name)) ∨
    ∃ client version, request.text? "client" = some client ∧
      request.text? "protocol_version" = some version ∧ version ≠ protocolVersion ∧
      handshake request = .error (.version version) := by
  unfold handshake Request.text
  cases request.text? "client" with
  | none => exact .inr (.inl ⟨_, .inl rfl, rfl⟩)
  | some client =>
      cases request.text? "protocol_version" with
      | none => exact .inr (.inl ⟨_, .inr rfl, rfl⟩)
      | some version =>
          by_cases same : version = protocolVersion
          · exact .inl ⟨client, rfl, congrArg some same, _, if_pos same⟩
          · exact .inr (.inr ⟨client, version, rfl, rfl, same, if_neg same⟩)

theorem agreed_validate : Agreed (validate request) :=
  (request.agreed_text _).bind fun _ => .ok _

theorem agreed_generate : Agreed (generate site request) := by
  refine (request.agreed_text _).bind fun source => request.agreed_tier.bind fun tier =>
    (request.agreed_project site).bind fun project => ?_
  split
  · exact .ok _
  · split
    · exact .ok _
    · exact .ok _

theorem agreed_components : Agreed (components site request) := by
  refine (request.agreed_text _).bind fun source =>
    (request.agreed_project site).bind fun project => ?_
  split
  · exact .ok _
  · exact .ok _

theorem agreed_run : Agreed (run site request schedule).1 := by
  unfold run
  split
  · next missing => exact .error (request.agreed_text _ _ missing)
  · next missing => exact .error (request.agreed_text _ _ missing)
  · split
    · exact .ok _
    · exact .ok _

theorem agreed_stop : Agreed (stop site request schedule).1 := by
  unfold stop
  split
  · next missing => exact .error (request.agreed_text _ _ missing)
  · split
    · exact .ok _
    · exact .ok _

end Command

namespace Connection

variable {σ : Type} (site : Site σ) (request : Request) (connection : Connection σ)

theorem agreed_command (schedule : Run.Schedule σ) :
    Agreed (command site request schedule).1 := by
  unfold command
  split
  · exact Command.agreed_validate request
  · exact Command.agreed_generate site request
  · exact Command.agreed_components site request
  · exact Command.agreed_run site request schedule
  · exact Command.agreed_stop site request schedule
  · exact .ok _
  · exact .error (by simp [Refusal.code])

/-- Only commands to run and to stop change anything. -/
theorem command_snd {schedule : Run.Schedule σ} (other : request.command ∉ ["run", "stop"]) :
    (command site request schedule).2 = schedule := by
  simp only [List.mem_cons, List.not_mem_nil, or_false, not_or] at other
  unfold command
  split
  case h_4 isRun => exact absurd isRun other.1
  case h_5 isStop => exact absurd isStop other.2
  all_goals rfl

variable {site request connection}

theorem perform_handshake (handshake : request.command = "handshake") :
    connection.perform site request = (Command.handshake request,
      { connection with greeted := connection.greeted || (Command.handshake request).isOk }) :=
  if_pos handshake

theorem perform_command (other : request.command ≠ "handshake")
    (greeted : connection.greeted = true) :
    connection.perform site request = ((command site request connection.schedule).1,
      { connection with schedule := (command site request connection.schedule).2 }) := by
  rw [perform, if_neg other, if_pos greeted]

theorem perform_early (other : request.command ≠ "handshake")
    (early : connection.greeted = false) :
    connection.perform site request = (.error .noHandshake, connection) := by
  rw [perform, if_neg other, early, if_neg Bool.false_ne_true]

/-- A handshake succeeds if it is one for this version, from a client with a name. -/
theorem isOk_handshake_iff (handshake : request.command = "handshake") :
    (Command.handshake request).isOk = true ↔ request.Greets := by
  unfold Request.Greets
  rcases Command.handshake_cases request with
    ⟨client, named, same, result, succeeds⟩ | ⟨name, missing, fails⟩ |
      ⟨client, version, named, wanted, differs, fails⟩
  · simp [handshake, named, same, succeeds, Except.isOk, Except.toBool]
  · rcases missing with missing | missing <;>
      simp [missing, fails, Except.isOk, Except.toBool]
  · simp [wanted, differs, fails, Except.isOk, Except.toBool]

/-- A connection has seen a handshake if it had before, or if the request is one. -/
theorem greeted_perform_iff :
    (connection.perform site request).2.greeted = true ↔
      connection.greeted = true ∨ request.Greets := by
  by_cases handshake : request.command = "handshake"
  · rw [perform_handshake handshake, Bool.or_eq_true, isOk_handshake_iff handshake]
  · have other : ¬ request.Greets := fun greets => handshake greets.1
    cases greeted : connection.greeted with
    | true => simp [perform_command handshake greeted, greeted]
    | false => simp [perform_early handshake greeted, greeted, other]

/-- Nothing changes but by a command to run or to stop, after a handshake. -/
theorem schedule_perform (same : connection.greeted = false ∨ request.command ∉ ["run", "stop"]) :
    (connection.perform site request).2.schedule = connection.schedule := by
  by_cases handshake : request.command = "handshake"
  · rw [perform_handshake handshake]
  · cases greeted : connection.greeted with
    | true =>
        rw [perform_command handshake greeted]
        exact command_snd site request (same.resolve_left (by simp [greeted]))
    | false => rw [perform_early handshake greeted]

/-- Before a handshake, every other request is refused. -/
theorem perform_refused (early : connection.greeted = false) (other : ¬ request.Greets) :
    ∃ refusal, (connection.perform site request).1 = .error refusal ∧
      refusal.code = if request.IsVague then "invalid_params" else "protocol_error" := by
  by_cases handshake : request.command = "handshake"
  · rw [perform_handshake handshake]
    rcases Command.handshake_cases request with
      ⟨client, named, same, -⟩ | ⟨name, missing, fails⟩ |
        ⟨client, version, named, wanted, -, fails⟩
    · exact absurd ⟨handshake, Option.isSome_of_eq_some named, same⟩ other
    · exact ⟨_, fails, by simp [Request.IsVague, handshake, missing, Refusal.code]⟩
    · exact ⟨_, fails, by simp [Request.IsVague, named, wanted, Refusal.code]⟩
  · rw [perform_early handshake early]
    exact ⟨_, rfl, by simp [Request.IsVague, handshake, Refusal.code]⟩

/-- After a handshake, no request is refused for want of one. -/
theorem perform_ne_noHandshake (greeted : connection.greeted = true) :
    (connection.perform site request).1 ≠ .error .noHandshake := by
  by_cases handshake : request.command = "handshake"
  · rw [perform_handshake handshake]
    rcases Command.handshake_cases request with
      ⟨-, -, -, result, succeeds⟩ | ⟨name, -, fails⟩ | ⟨-, version, -, -, -, fails⟩
    · simp [succeeds]
    · simp [fails]
    · simp [fails]
  · rw [perform_command handshake greeted]
    exact fun refused => agreed_command site request _ _ refused rfl

end Connection

/-! ## Lines one after the other -/

/-- A line as it comes: what the runs have done since the line before, the site as it is by then,
and the text. -/
structure Moment (σ : Type) where
  meanwhile : Run.Schedule σ → Run.Schedule σ
  site : Site σ
  line : String

namespace Moment

variable {σ : Type}

/-- A line to which nothing happens in between. -/
def still (site : Site σ) (line : String) : Moment σ := ⟨id, site, line⟩

/-- Whether a line is more than blanks. -/
def speaks (moment : Moment σ) : Bool :=
  !(Text.trim moment.line.toList).isEmpty

/-- The request on a line. -/
def request? (moment : Moment σ) : Option Request :=
  if moment.speaks then Request.read? moment.line else none

/-- Whether a line is a handshake that succeeds. -/
def Greets (moment : Moment σ) : Prop :=
  ∃ request, moment.request? = some request ∧ request.Greets

instance (moment : Moment σ) : Decidable moment.Greets :=
  decidable_of_iff (moment.request?.any (·.Greets) = true) (by
    unfold Greets
    cases moment.request? <;> simp)

/-- A reply answers a line with the identifier of its request, if there is one. -/
def Answers (moment : Moment σ) (reply : Reply) : Prop :=
  (∃ request, moment.request? = some request ∧ reply.id = request.id) ∨
    (moment.request? = none ∧ reply = ⟨.null, .error .malformed⟩)

end Moment

namespace Connection

variable {σ : Type}

/-- A connection when a line comes. -/
def upon (connection : Connection σ) (moment : Moment σ) : Connection σ :=
  { connection with schedule := moment.meanwhile connection.schedule }

/-- Answer lines as they come. -/
def converse : List (Moment σ) → Connection σ → List Reply × Connection σ
  | [], connection => ([], connection)
  | moment :: moments, connection =>
      let (reply, connection) := (connection.upon moment).answer moment.site moment.line
      let (replies, connection) := converse moments connection
      (reply.toList ++ replies, connection)

/-- Answering lines at once is a conversation in which nothing happens between the lines. -/
theorem answerAll_eq_converse (site : Site σ) (lines : List String) (connection : Connection σ) :
    answerAll site lines connection = converse (lines.map (.still site)) connection := by
  induction lines generalizing connection with
  | nil => rfl
  | cons line rest ih =>
      rw [List.map_cons, answerAll, converse]
      simp only [ih]
      rfl

theorem converse_append (before after : List (Moment σ)) (connection : Connection σ) :
    converse (before ++ after) connection =
      ((converse before connection).1 ++ (converse after (converse before connection).2).1,
        (converse after (converse before connection).2).2) := by
  induction before generalizing connection with
  | nil => rfl
  | cons moment rest ih =>
      rw [List.cons_append, converse, converse]
      simp only [ih, List.append_assoc]

/-! ### One line -/

variable {moment : Moment σ} {connection : Connection σ} {request : Request}

theorem answer_blank (blank : moment.speaks = false) :
    connection.answer moment.site moment.line = (none, connection) :=
  if_pos (by simpa [Moment.speaks] using blank)

theorem answer_malformed (speaks : moment.speaks = true) (malformed : moment.request? = none) :
    connection.answer moment.site moment.line =
      (some ⟨.null, .error .malformed⟩, connection) := by
  rw [Moment.request?, if_pos speaks] at malformed
  rw [answer, if_neg (by simpa [Moment.speaks] using speaks), malformed]

theorem speaks_of_request (here : moment.request? = some request) : moment.speaks = true := by
  by_contra blank
  rw [Moment.request?, if_neg blank] at here
  contradiction

theorem answer_request (here : moment.request? = some request) :
    connection.answer moment.site moment.line =
      (some ⟨request.id, (connection.perform moment.site request).1⟩,
        (connection.perform moment.site request).2) := by
  have speaks := speaks_of_request here
  rw [Moment.request?, if_pos speaks] at here
  rw [answer, if_neg (by simpa [Moment.speaks] using speaks), here]

/-- A line gets one reply, or none if it is blank. -/
theorem forall₂_answer (connection : Connection σ) (moment : Moment σ) :
    List.Forall₂ Moment.Answers ([moment].filter Moment.speaks)
      (connection.answer moment.site moment.line).1.toList := by
  cases speaks : moment.speaks with
  | false =>
      rw [answer_blank speaks, List.filter_singleton, speaks]
      exact .nil
  | true =>
      rw [List.filter_singleton, speaks]
      cases here : moment.request? with
      | none =>
          rw [answer_malformed speaks here]
          exact .cons (.inr ⟨here, rfl⟩) .nil
      | some request =>
          rw [answer_request here]
          exact .cons (.inl ⟨request, here, rfl⟩) .nil

theorem greeted_answer_iff :
    (connection.answer moment.site moment.line).2.greeted = true ↔
      connection.greeted = true ∨ moment.Greets := by
  unfold Moment.Greets
  cases here : moment.request? with
  | some request => simp [answer_request here, greeted_perform_iff]
  | none =>
      cases speaks : moment.speaks with
      | false => simp [answer_blank speaks]
      | true => simp [answer_malformed speaks here]

/-- A line changes something only if it is a command to run or to stop, after a handshake. -/
theorem schedule_answer (same : connection.greeted = false ∨
      ∀ request, moment.request? = some request → request.command ∉ ["run", "stop"]) :
    (connection.answer moment.site moment.line).2.schedule = connection.schedule := by
  cases here : moment.request? with
  | some request =>
      rw [answer_request here]
      exact schedule_perform (same.imp_right fun other => other request here)
  | none =>
      cases speaks : moment.speaks with
      | false => rw [answer_blank speaks]
      | true => rw [answer_malformed speaks here]

/-! ### All lines -/

/-- Every line that is not blank gets one reply, in order. -/
theorem forall₂_converse (moments : List (Moment σ)) (connection : Connection σ) :
    List.Forall₂ Moment.Answers (moments.filter Moment.speaks)
      (converse moments connection).1 := by
  induction moments generalizing connection with
  | nil => exact .nil
  | cons moment rest ih =>
      have split : (moment :: rest).filter Moment.speaks =
          [moment].filter Moment.speaks ++ rest.filter Moment.speaks :=
        List.filter_append [moment] rest
      rw [split, converse]
      exact List.rel_append (forall₂_answer _ moment) (ih _)

/-- A connection has seen a handshake if it had at first, or if one of the lines is one. -/
theorem greeted_converse_iff (moments : List (Moment σ)) (connection : Connection σ) :
    (converse moments connection).2.greeted = true ↔
      connection.greeted = true ∨ ∃ moment ∈ moments, moment.Greets := by
  induction moments generalizing connection with
  | nil => simp [converse]
  | cons moment rest ih =>
      rw [converse]
      simp only [ih, greeted_answer_iff, List.exists_mem_cons_iff, or_assoc]
      rfl

theorem length_converse (moments : List (Moment σ)) (connection : Connection σ) :
    (converse moments connection).1.length = moments.countP Moment.speaks := by
  rw [← (forall₂_converse moments connection).length_eq, List.countP_eq_length_filter]

/-- The reply to a request comes behind those to the lines before it. -/
theorem getElem?_converse (before after : List (Moment σ)) (connection : Connection σ)
    (here : moment.request? = some request) :
    (converse (before ++ moment :: after) connection).1[before.countP Moment.speaks]? =
      some ⟨request.id,
        (((converse before connection).2.upon moment).perform moment.site request).1⟩ := by
  rw [converse_append, ← length_converse before connection,
    List.getElem?_append_right (Nat.le_refl _), Nat.sub_self, converse, answer_request here]
  rfl

/-- What comes of a conversation.

Every line that is not blank gets one reply, in order, with the identifier of its request, or null
if it is no request; a reply is a result or an error.  Until a handshake succeeds, no line changes
anything, and every other request is refused: with `invalid_params` if it is a handshake that
leaves something out, and with `protocol_error` if not.  Once it has succeeded, no request is
refused for want of a handshake, and none but another handshake with `protocol_error`.  Nothing
but a command to run or to stop ever changes anything. -/
theorem replies_of_conversation (schedule : Run.Schedule σ) (moments : List (Moment σ)) :
    let replies := (converse moments (new schedule)).1
    List.Forall₂ Moment.Answers (moments.filter Moment.speaks) replies ∧
    (∀ reply ∈ replies, Reply.WellFormed reply.toJson reply.id) ∧
    ∀ before moment after, moments = before ++ moment :: after →
      let now := moment.meanwhile (converse before (new schedule)).2.schedule
      let later := (converse (before ++ [moment]) (new schedule)).2.schedule
      ((¬ ∃ past ∈ before, past.Greets) → later = now) ∧
      ((∀ request, moment.request? = some request → request.command ∉ ["run", "stop"]) →
        later = now) ∧
      ∀ request, moment.request? = some request →
        ∃ reply, replies[before.countP Moment.speaks]? = some reply ∧ reply.id = request.id ∧
          (request.command = "handshake" → (reply.outcome.isOk = true ↔ request.Greets)) ∧
          ((¬ ∃ past ∈ before, past.Greets) → ¬ request.Greets →
            reply.code? = some (if request.IsVague then "invalid_params" else "protocol_error")) ∧
          ((∃ past ∈ before, past.Greets) → reply.outcome ≠ .error .noHandshake ∧
            (request.command ≠ "handshake" → reply.code? ≠ some "protocol_error")) := by
  refine ⟨forall₂_converse moments _, fun reply _ => reply.wellFormed_toJson, ?_⟩
  intro before moment after split now later
  let connection := (converse before (new schedule)).2.upon moment
  have greetedIff : connection.greeted = true ↔ ∃ past ∈ before, past.Greets :=
    (greeted_converse_iff before (new schedule)).trans (by simp [new])
  have early (ungreeted : ¬ ∃ past ∈ before, past.Greets) : connection.greeted = false :=
    Bool.eq_false_iff.mpr (mt greetedIff.mp ungreeted)
  have laterEq : later = (connection.answer moment.site moment.line).2.schedule :=
    congrArg (·.2.schedule) (converse_append before [moment] (new schedule))
  refine ⟨fun ungreeted => ?_, fun other => ?_, fun request here => ?_⟩
  · rw [laterEq]
    exact schedule_answer (.inl (early ungreeted))
  · rw [laterEq]
    exact schedule_answer (.inr other)
  · refine ⟨_, split ▸ getElem?_converse before after (new schedule) here, rfl, ?_, ?_, ?_⟩
    · intro handshake
      rw [perform_handshake handshake]
      exact isOk_handshake_iff handshake
    · intro ungreeted other
      obtain ⟨refusal, refused, codeEq⟩ := perform_refused (early ungreeted) other
      rw [refused, Reply.code?_error, codeEq]
    · intro greets
      have greeted := greetedIff.mpr greets
      refine ⟨perform_ne_noHandshake greeted, fun other => ?_⟩
      rw [perform_command other greeted]
      exact (agreed_command _ request _).code?_ne _

/-- A command, a handshake and another command: the first is refused for want of a handshake,
the second is not. -/
theorem replies_of_conversation_validate :
    let lines := ["\x7b\"id\":1,\"command\":\"list_devices\"\x7d",
      "\x7b\"id\":2,\"command\":\"handshake\",\"params\":" ++
        "\x7b\"client\":\"ui\",\"protocol_version\":\"1.0.0\"\x7d\x7d",
      "", "\x7b\"id\":3,\"command\":\"validate\"\x7d"]
    let moments := lines.map (Moment.still (CommandLine.site .default 0 .empty))
    let replies := (converse moments (new (CommandLine.freshSchedule .default))).1
    replies.length = 3 ∧ (∃ reply, replies[0]? = some reply ∧ reply.code? = some "protocol_error") ∧
      ∃ reply, replies[2]? = some reply ∧ reply.code? ≠ some "protocol_error" := by
  intro lines moments replies
  have other (moment : Moment Run.Plant)
      (plain : moment.request?.any (·.command != "handshake") = true) :
      ∃ request, moment.request? = some request ∧ request.command ≠ "handshake" := by
    cases here : moment.request? with
    | none => simp [here] at plain
    | some request => exact ⟨request, rfl, by simpa [here] using plain⟩
  obtain ⟨answered, -, each⟩ :=
    replies_of_conversation (CommandLine.freshSchedule .default) moments
  refine ⟨answered.length_eq.symm.trans (by decide +kernel), ?_, ?_⟩
  · obtain ⟨request, here, plain⟩ := other moments[0] (by decide +kernel)
    obtain ⟨-, -, replied⟩ := each [] moments[0] (moments.drop 1) rfl
    obtain ⟨reply, found, -, -, refused, -⟩ := replied request here
    refine ⟨reply, found, ?_⟩
    rw [refused (by simp) (fun greets => plain greets.1), if_neg (fun vague => plain vague.1)]
  · obtain ⟨request, here, plain⟩ := other moments[3] (by decide +kernel)
    obtain ⟨-, -, replied⟩ := each (moments.take 3) moments[3] [] rfl
    obtain ⟨reply, found, -, -, -, agreed⟩ := replied request here
    have place : (moments.take 3).countP Moment.speaks = 2 := by decide +kernel
    exact ⟨reply, place ▸ found, (agreed (by decide +kernel)).2 plain⟩

/-- A handshake without parameters is a request, and the code of its reply is not
`protocol_error`. -/
theorem code?_vague_handshake :
    let line := "\x7b\"id\":1,\"command\":\"handshake\",\"params\":\x7b\x7d\x7d"
    let site := CommandLine.site .default 0 .empty
    let connection := new (CommandLine.freshSchedule .default)
    (Request.read? line).isSome = true ∧ ¬ (Moment.still site line).Greets ∧
      (answerAll site [line] connection).1.map Reply.code? = [some "invalid_params"] := by
  decide +kernel

end Connection

end Pneumatic.Service
