import GatewayGrpc.Gateway.Handlers
import GatewayGrpc.Transport.Termination

/-!
# Every client gets its own answer

The handlers and the calls of the transport belong together one to one, from the call on. So the
response of a handler is made from the result of its own call, and the metrics add up.
-/

namespace GatewayGrpc.Transport.Exchange
open Library Proto SharedMemory

structure Carried (e : Event) (i : Nat) (call later : Call) : Prop where
  request : later.request = call.request
  dropped : later.phase = .dropped → call.phase = .dropped ∨ e = .drop i
  final : (call.phase = .dropped ∨ ∃ result, call.phase = .returned result) →
    later.phase = call.phase

variable {codecs : IdCodecs} {t : ShmTransport} {s u : Exchange} {e : Event} {i j : Nat}

theorem Carried.refl (call : Call) : Carried e i call call := ⟨rfl, .inl, fun _ => rfl⟩

theorem carried_setCall {call other new : Call} (here : s.calls[i]? = some call)
    (there : s.calls[j]? = some other) (kept : j = i → Carried e i other new) :
    ∃ later, (s.setCall j new).calls[i]? = some later ∧ Carried e i call later := by
  rw [setCall, getElem?_set_of there]
  split
  · rename_i same
    subst same
    cases here.symm.trans there
    exact ⟨new, rfl, kept rfl⟩
  · exact ⟨call, here, .refl call⟩

theorem carried_step {call : Call} (here : s.calls[i]? = some call)
    (action : step codecs t s e = some u) :
    ∃ later, u.calls[i]? = some later ∧ Carried e i call later := by
  cases step_effect action with
  | called request fresh =>
      refine ⟨call, ?_, .refl call⟩
      rw [List.getElem?_append_left (lt_of_getElem?_eq here), here]
  | registered there starting =>
      exact carried_setCall here there fun _ => ⟨rfl, by simp, by simp [starting]⟩
  | wrote there registered room =>
      exact carried_setCall here there fun _ => ⟨rfl, by simp, by simp [registered]⟩
  | moved there moves =>
      refine carried_setCall here there fun same => ?_
      subst same
      cases moves with
      | dropped before =>
          refine ⟨rfl, fun _ => .inr rfl, ?_⟩
          rcases before with before | before | before <;> simp [before]
      | writeRefused before | notified before | notifyFailed before | received before
      | closed before => exact ⟨rfl, by simp, by simp [before]⟩
  | resolved held found there =>
      exact carried_setCall here there fun _ => ⟨rfl, .inl, fun _ => rfl⟩
  | _ => exact ⟨call, here, .refl call⟩

theorem called_step {id : Text} {request : EchoRequest}
    (action : step codecs t s (.call id request) = some u) :
    u.calls = s.calls ++ [⟨id, request, .starting, false, none⟩] := by
  obtain ⟨_, action⟩ := guard_bind_eq_some.mp action
  cases action
  rfl

theorem dropped_step (action : step codecs t s (.drop i) = some u) :
    u.calls.length = s.calls.length := by
  obtain ⟨call, here, _, rfl⟩ := move_eq_some (by simpa only [step] using action)
  exact List.length_set

end GatewayGrpc.Transport.Exchange

namespace GatewayGrpc.Gateway
open Library Proto Transport

def Serves (fromSlice : FromSlice) (h : Handler) (call : Transport.Call) : Prop :=
  (∃ body ts, h.body = some body ∧ call.request = echoRequest fromSlice h.path body ts) ∧
    match h.stage with
    | .collecting => False
    | .calling => call.phase ≠ .dropped
    | .responding response | .answered response =>
        ∃ result cause, call.phase = .returned result ∧ response = respond cause result
    | .dropped => call.phase = .dropped

theorem Serves.kept {fromSlice : FromSlice} {h : Handler} {call later : Transport.Call} {i : Nat}
    {e : Exchange.Event} (serves : Serves fromSlice h call) (kept : Exchange.Carried e i call later)
    (stays : e ≠ .drop i) : Serves fromSlice h later := by
  obtain ⟨asked, stage⟩ := serves
  refine ⟨kept.request.symm ▸ asked, ?_⟩
  revert stage
  cases h.stage with
  | collecting => exact id
  | calling =>
      intro alive dropped
      rcases kept.dropped dropped with before | drop
      · exact alive before
      · exact stays drop
  | responding response | answered response =>
      rintro ⟨result, cause, returned, same⟩
      exact ⟨result, cause, (kept.final (.inr ⟨result, returned⟩)).trans returned, same⟩
  | dropped =>
      intro dropped
      exact (kept.final (.inl dropped)).trans dropped

namespace Handlers
variable {Front Act : Type} {fromSlice : FromSlice} {link : Link Front Act} {codecs : IdCodecs}

def Apart (handlers : List Handler) : Prop :=
  ∀ (i j : Nat) (h k : Handler) (c : Nat), handlers[i]? = some h → handlers[j]? = some k →
    h.call = some c → k.call = some c → i = j

def Alone (h : Handler) : Prop :=
  h.body = none ∧ (h.stage = .collecting ∨ h.stage = .answered badRequest ∨ h.stage = .dropped)

structure Linked (fromSlice : FromSlice) (calls : List Transport.Call) (handlers : List Handler) :
    Prop where
  caller : ∀ c < calls.length, ∃ h ∈ handlers, h.call = some c
  alone : ∀ h ∈ handlers, h.call = none → Alone h
  serves : ∀ h ∈ handlers, ∀ c, h.call = some c →
    ∃ call, calls[c]? = some call ∧ Serves fromSlice h call
  apart : Apart handlers

theorem linked_nil : Linked fromSlice [] [] where
  caller := by simp
  alone := by simp
  serves := by simp
  apart := by simp [Apart]

variable {calls later : List Transport.Call} {handlers : List Handler} {i : Nat} {h k : Handler}

theorem Apart.set (apart : Apart handlers) (here : handlers[i]? = some h)
    (call : k.call = h.call) : Apart (handlers.set i k) := by
  intro m n x y c first second xCall yCall
  have source : ∀ {m : Nat} {x : Handler}, (handlers.set i k)[m]? = some x → x.call = some c →
      ∃ x', handlers[m]? = some x' ∧ x'.call = some c := by
    intro m x found xCall
    rcases getElem?_set_cases here found with ⟨rfl, rfl⟩ | ⟨_, found⟩
    · exact ⟨h, here, call ▸ xCall⟩
    · exact ⟨x, found, xCall⟩
  obtain ⟨x', first, xCall⟩ := source first xCall
  obtain ⟨y', second, yCall⟩ := source second yCall
  exact apart m n x' y' c first second xCall yCall

theorem caller_set {c : Nat} (here : handlers[i]? = some h)
    (call : h.call = some c → k.call = some c) (caller : ∃ x ∈ handlers, x.call = some c) :
    ∃ x ∈ handlers.set i k, x.call = some c := by
  obtain ⟨x, member, made⟩ := caller
  obtain ⟨j, there⟩ := List.mem_iff_getElem?.mp member
  by_cases same : i = j
  · subst same
    cases here.symm.trans there
    exact ⟨k, List.mem_of_getElem? (getElem?_set_self_of here), call made⟩
  · refine ⟨x, List.mem_of_getElem? (i := j) ?_, made⟩
    rw [getElem?_set_of here, if_neg same, there]

theorem Linked.set (linked : Linked fromSlice calls handlers) (here : handlers[i]? = some h)
    (call : k.call = h.call) (alone : h.call = none → Alone k)
    (serves : ∀ c, h.call = some c → ∃ call, calls[c]? = some call ∧ Serves fromSlice k call) :
    Linked fromSlice calls (handlers.set i k) where
  caller := fun c inside => caller_set here (fun made => call.trans made) (linked.caller c inside)
  alone := by
    intro other member none
    rcases List.mem_or_eq_of_mem_set member with before | rfl
    · exact linked.alone other before none
    · exact alone (call ▸ none)
  serves := by
    intro other member c made
    rcases List.mem_or_eq_of_mem_set member with before | rfl
    · exact linked.serves other before c made
    · exact serves c (call ▸ made)
  apart := linked.apart.set here call

theorem Linked.append (linked : Linked fromSlice calls handlers) (call : k.call = none)
    (alone : Alone k) : Linked fromSlice calls (handlers ++ [k]) where
  caller := by
    intro c inside
    obtain ⟨other, member, made⟩ := linked.caller c inside
    exact ⟨other, List.mem_append_left _ member, made⟩
  alone := by
    intro other member none
    rcases List.mem_append.mp member with before | last
    · exact linked.alone other before none
    · exact List.mem_singleton.mp last ▸ alone
  serves := by
    intro other member c made
    rcases List.mem_append.mp member with before | last
    · exact linked.serves other before c made
    · rw [List.mem_singleton.mp last, call] at made
      cases made
  apart := by
    intro m n x y c first second xCall yCall
    have source : ∀ {m : Nat} {x : Handler}, (handlers ++ [k])[m]? = some x → x.call = some c →
        handlers[m]? = some x := by
      intro m x found xCall
      rcases getElem?_append_cases found with before | ⟨_, rfl⟩
      · exact before
      · cases call.symm.trans xCall
    exact linked.apart m n x y c (source first xCall) (source second yCall) xCall yCall

theorem Linked.kept (linked : Linked fromSlice calls handlers)
    (length : later.length = calls.length)
    (kept : ∀ c call, calls[c]? = some call →
      ∃ next e, later[c]? = some next ∧ Exchange.Carried e c call next ∧ e ≠ .drop c) :
    Linked fromSlice later handlers where
  caller := length ▸ linked.caller
  alone := linked.alone
  serves := by
    intro other member c made
    obtain ⟨call, found, serves⟩ := linked.serves other member c made
    obtain ⟨next, e, there, kept, stays⟩ := kept c call found
    exact ⟨next, there, serves.kept kept stays⟩
  apart := linked.apart

theorem Linked.call_none (linked : Linked fromSlice calls handlers)
    (here : handlers[i]? = some h) (collecting : h.stage = .collecting) : h.call = none := by
  cases made : h.call with
  | none => rfl
  | some c =>
      obtain ⟨call, _, _, stage⟩ := linked.serves h (List.mem_of_getElem? here) c made
      rw [collecting] at stage
      exact stage.elim

theorem Linked.forward (linked : Linked fromSlice calls handlers) (here : handlers[i]? = some h)
    (none : h.call = none) {new : Transport.Call} (call : k.call = some calls.length)
    (serves : Serves fromSlice k new) :
    Linked fromSlice (calls ++ [new]) (handlers.set i k) where
  caller := by
    intro c inside
    rcases Nat.lt_or_ge c calls.length with before | last
    · refine caller_set here (fun made => ?_) (linked.caller c before)
      cases none.symm.trans made
    · have same : c = calls.length := by
        rw [List.length_append, List.length_singleton] at inside
        omega
      exact ⟨k, List.mem_of_getElem? (getElem?_set_self_of here), same ▸ call⟩
  alone := by
    intro other member none
    rcases List.mem_or_eq_of_mem_set member with before | rfl
    · exact linked.alone other before none
    · cases call.symm.trans none
  serves := by
    intro other member c made
    rcases List.mem_or_eq_of_mem_set member with before | rfl
    · obtain ⟨call, found, serves⟩ := linked.serves other before c made
      refine ⟨call, ?_, serves⟩
      rw [List.getElem?_append_left (lt_of_getElem?_eq found), found]
    · cases call.symm.trans made
      exact ⟨new, by simp, serves⟩
  apart := by
    intro m n x y c first second xCall yCall
    have older : ∀ {m : Nat} {x : Handler}, handlers[m]? = some x → x.call ≠ some calls.length := by
      intro m x found made
      obtain ⟨call, there, _⟩ := linked.serves x (List.mem_of_getElem? found) _ made
      exact Nat.lt_irrefl _ (lt_of_getElem?_eq there)
    rcases getElem?_set_cases here first with ⟨atM, rfl⟩ | ⟨_, before⟩ <;>
      rcases getElem?_set_cases here second with ⟨atN, rfl⟩ | ⟨_, behind⟩
    · exact atM.symm.trans atN
    · cases call.symm.trans xCall
      exact absurd yCall (older behind)
    · cases call.symm.trans yCall
      exact absurd xCall (older before)
    · exact linked.apart m n x y c before behind xCall yCall

theorem Linked.drop {c : Nat} {t : ShmTransport} {b u : Exchange}
    (linked : Linked fromSlice b.calls handlers) (here : handlers[i]? = some h)
    (made : h.call = some c) (action : Exchange.step codecs t b (.drop c) = some u) :
    Linked fromSlice u.calls (handlers.set i { h with stage := .dropped }) := by
  obtain ⟨call, found, serves⟩ := linked.serves h (List.mem_of_getElem? here) c made
  have dropped : u.calls[c]? = some { call with phase := .dropped } := by
    simp only [Exchange.step] at action
    obtain ⟨same, there, _, rfl⟩ := Exchange.move_eq_some action
    cases found.symm.trans there
    exact getElem?_set_self_of found
  constructor
  · intro d inside
    refine caller_set here (fun made => made) (linked.caller d ?_)
    rwa [Exchange.dropped_step action] at inside
  · intro other member none
    rcases List.mem_or_eq_of_mem_set member with before | rfl
    · exact linked.alone other before none
    · cases made.symm.trans none
  · intro other member d otherMade
    obtain ⟨j, there⟩ := List.mem_iff_getElem?.mp member
    rcases getElem?_set_cases here there with ⟨_, rfl⟩ | ⟨away, there⟩
    · cases made.symm.trans otherMade
      exact ⟨_, dropped, serves.1, rfl⟩
    · obtain ⟨before, held, serves⟩ := linked.serves other (List.mem_of_getElem? there) d otherMade
      obtain ⟨next, now, kept⟩ := Exchange.carried_step held action
      refine ⟨next, now, serves.kept kept ?_⟩
      intro same
      cases same
      exact away (linked.apart i j h other c here there made otherMade)
  · exact linked.apart.set here rfl

theorem transport_kept {b u : Layered Front Exchange} {a : Act} (other : link.fromCaller a = false)
    (moved : Layered.step link.front (Exchange.step codecs link.kind) b a = some u) :
    u.back.calls.length = b.back.calls.length ∧
      ∀ c call, b.back.calls[c]? = some call →
        ∃ next e, u.back.calls[c]? = some next ∧ Exchange.Carried e c call next ∧ e ≠ .drop c := by
  obtain ⟨e, first, second⟩ := (Layered.step_eq_some _ _).mp moved
  have own : ∀ x ∈ e, ¬ x.FromCaller := by
    rintro x member
    obtain rfl := Option.mem_def.mp member
    exact link.own _ _ _ _ _ other first
  constructor
  · apply Exchange.length_advance second
    rintro x member id request rfl
    exact own _ member trivial
  · intro c call here
    cases e with
    | none =>
        rw [← Option.some.inj second]
        exact ⟨call, .serve, here, .refl call, by simp⟩
    | some e =>
        obtain ⟨next, there, kept⟩ := Exchange.carried_step here second
        refine ⟨next, e, there, kept, ?_⟩
        rintro rfl
        exact own _ rfl trivial

theorem ask_calls {b u : Layered Front Exchange} {id : Text} {request : EchoRequest}
    (moved : Layered.step link.front (Exchange.step codecs link.kind) b (link.ask id request) =
      some u) :
    u.back.calls = b.back.calls ++ [⟨id, request, .starting, false, none⟩] := by
  obtain ⟨e, first, second⟩ := (Layered.step_eq_some _ _).mp moved
  rw [link.asked] at first
  obtain ⟨_, rfl⟩ := Prod.mk.inj (Option.some.inj first)
  change Exchange.step codecs link.kind b.back (.call id request) = some u.back at second
  exact Exchange.called_step second

theorem abandon_step {b u : Layered Front Exchange} {c : Nat}
    (moved : Layered.step link.front (Exchange.step codecs link.kind) b (link.abandon c) = some u) :
    Exchange.step codecs link.kind b.back (.drop c) = some u.back := by
  obtain ⟨e, first, second⟩ := (Layered.step_eq_some _ _).mp moved
  cases link.abandoned _ _ _ _ _ first
  exact second

structure Good (fromSlice : FromSlice) (codecs : IdCodecs) (s : State Front) : Prop where
  sound : s.back.back.Sound codecs
  linked : Linked fromSlice s.back.back.calls s.front.handlers

theorem good_start (requestCapacity responseCapacity : Nat) :
    Good fromSlice codecs (start link requestCapacity responseCapacity) where
  sound := Exchange.sound_initial codecs _ _
  linked := linked_nil

theorem Good.step {s u : State Front} {a : Action Act} (good : Good fromSlice codecs s)
    (action : step fromSlice link codecs s a = some u) : Good fromSlice codecs u := by
  have linked := good.linked
  constructor
  · have inner : ∀ (b : Layered Front Exchange) a c, b.back.Sound codecs →
        Layered.step link.front (Exchange.step codecs link.kind) b a = some c →
        c.back.Sound codecs :=
      fun _ _ _ sound moved => Layered.preserved (fun _ _ _ sound => sound.step) sound moved
    exact Layered.preserved inner good.sound action
  · obtain ⟨g, b⟩ := s
    obtain ⟨k, c⟩ := u
    obtain ⟨e, effect, second⟩ := step_effect action
    dsimp only at *
    cases effect with
    | accepted path =>
        cases second
        exact linked.append rfl ⟨rfl, .inl rfl⟩
    | bodyFailed here collecting =>
        cases second
        have none := linked.call_none here collecting
        have alone := linked.alone _ (List.mem_of_getElem? here) none
        exact linked.set here rfl (fun _ => ⟨alone.1, .inr (.inl rfl)⟩) fun c made => by
          cases none.symm.trans made
    | forwarded body ts id here collecting =>
        rw [ask_calls second]
        exact linked.forward here (linked.call_none here collecting) rfl
          ⟨⟨body, ts, rfl, rfl⟩, by simp⟩
    | transported other =>
        obtain ⟨length, kept⟩ := transport_kept other second
        exact linked.kept length kept
    | answered cause here calling made found returned
    | failed cause here calling made found returned =>
        cases second
        obtain ⟨same, there, asked, stage⟩ := linked.serves _ (List.mem_of_getElem? here) _ made
        cases found.symm.trans there
        refine linked.set here rfl (fun none => by cases made.symm.trans none) fun d again => ?_
        cases made.symm.trans again
        exact ⟨_, found, asked, _, cause, returned, rfl⟩
    | finished here responding =>
        cases second
        refine linked.set here rfl (fun none => ?_) fun c made => ?_
        · have stage := (linked.alone _ (List.mem_of_getElem? here) none).2
          rw [responding] at stage
          rcases stage with stage | stage | stage <;> cases stage
        · obtain ⟨call, found, asked, stage⟩ :=
            linked.serves _ (List.mem_of_getElem? here) _ made
          rw [responding] at stage
          exact ⟨call, found, asked, stage⟩
    | droppedEarly here collecting =>
        cases second
        have none := linked.call_none here collecting
        have alone := linked.alone _ (List.mem_of_getElem? here) none
        exact linked.set here rfl (fun _ => ⟨alone.1, .inr (.inr rfl)⟩) fun c made => by
          cases none.symm.trans made
    | dropped here calling made => exact linked.drop here made (abandon_step second)

theorem Good.of_run {requestCapacity responseCapacity : Nat} {actions : List (Action Act)}
    {s : State Front}
    (ran : run (Handlers.step fromSlice link codecs) (start link requestCapacity responseCapacity)
      actions = some s) : Good fromSlice codecs s :=
  run_preserves (fun _ _ _ good action => good.step action) (good_start _ _) ran

inductive Own (fromSlice : FromSlice) (h : Handler) (response : HttpResponse) : Prop
  | unread (none : h.body = none) (same : response = badRequest)
  | echoed {body : Body} (processingTimeUs timestampNs : Int64) (sent : h.body = some body)
      (status : response.status = 200)
      (reads : reply.parse response.body =
        some ((message fromSlice h.path body, processingTimeUs, timestampNs), []))
  | failed {body : Body} {error : CallError} (cause : String) (sent : h.body = some body)
      (kind : error = .notify ∨ ∃ e, error = .write e) (same : response = unavailable error cause)

theorem Good.own {s : State Front} (good : Good fromSlice codecs s) {h : Handler}
    (member : h ∈ s.front.handlers) {response : HttpResponse}
    (answered : h.stage = .answered response) : Own fromSlice h response := by
  cases made : h.call with
  | none =>
      obtain ⟨none, stage⟩ := good.linked.alone h member made
      rw [answered] at stage
      refine .unread none ?_
      rcases stage with stage | stage | stage <;> cases stage
      rfl
  | some c =>
      obtain ⟨call, here, ⟨body, ts, sent, request⟩, stage⟩ := good.linked.serves h member c made
      rw [answered] at stage
      obtain ⟨result, cause, returned, rfl⟩ := stage
      have there := List.mem_of_getElem? here
      cases result with
      | ok echo =>
          have own := (good.sound.returned_echoes there returned).1
          refine .echoed echo.processingTimeUs echo.timestampNs sent rfl ?_
          rw [respond, reply_forwarded, own, request]
          rfl
      | error error =>
          refine .failed cause sent ?_ rfl
          have coherent := (good.sound.coherent call there).2
          rw [returned] at coherent
          cases error with
          | write e => exact .inr ⟨e, rfl⟩
          | notify => exact .inl rfl
          | timeout | deserialize | closed => exact coherent.elim

theorem Own.text {h : Handler} {response : HttpResponse} (own : Own fromSlice h response)
    {body : Body} {text : Text} (sent : h.body = some body) (bytes : body.val = text.utf8)
    (nonempty : body.val ≠ []) (plain : fromSlice body.val = none)
    (ok : response.status = 200) :
    ∃ rest, reply.parse response.body = some ((text, rest), []) := by
  cases own with
  | unread none same => cases none.symm.trans sent
  | echoed pt ts other status reads =>
      cases other.symm.trans sent
      rw [message_of_text bytes nonempty plain] at reads
      exact ⟨(pt, ts), reads⟩
  | failed cause other kind same =>
      subst same
      cases ok

/-- In every run over either id-based transport, a client that is answered is answered with its own
request, or told that there is no answer. A text comes back as it was sent. -/
theorem responses_own {requestCapacity responseCapacity : Nat} {actions : List (Action Act)}
    {s : State Front}
    (ran : run (step fromSlice link codecs) (start link requestCapacity responseCapacity) actions =
      some s) :
    ∀ h ∈ s.front.handlers, ∀ response, h.stage = .answered response →
      Own fromSlice h response ∧
        ∀ body (text : Text), h.body = some body → body.val = text.utf8 → body.val ≠ [] →
          fromSlice body.val = none → response.status = 200 →
          ∃ rest, reply.parse response.body = some ((text, rest), []) := by
  intro h member response answered
  have own := (Good.of_run ran).own member answered
  exact ⟨own, fun body text sent bytes nonempty plain ok =>
    own.text sent bytes nonempty plain ok⟩

def textBody : Body := ⟨Json.ascii "ping", by decide⟩

def jsonBody : Body := ⟨Json.ascii "\x7b\"message\":\"hello\"\x7d", by decide⟩

def parsed : FromSlice := fun bytes =>
  if bytes = jsonBody.val then
    some (.object [(⟨"message", by decide⟩, .string ⟨"hello", by decide⟩)])
  else none

def transports (actions : List Act) : List (Action Act) := actions.map .transport

def udsActions : List (Action Uds.Action) :=
  .accept ⟨"/a", by decide⟩ :: .accept ⟨"/b", by decide⟩ :: .forward 0 textBody 1 sampleId ::
    .forward 1 jsonBody 2 otherId ::
    (transports [.register 0, .register 1, .write 0, .write 1, .lockNotify 1, .notify 1, .flush 1,
      .lockNotify 0, .notify 0, .flush 0, .backendWake, .take, .backendWake, .take,
      .respond 1 5 6, .lockWrite 1, .notifyBack 1, .flushBack 1, .listenerWake, .drain, .resolve,
      .drain, .receive 1]).append
    (.answer 1 "" :: .finish 1 ::
      (transports [.respond 0 7 8, .lockWrite 0, .notifyBack 0, .flushBack 0, .listenerWake,
        .drain, .resolve, .drain, .receive 0]).append [.answer 0 "", .finish 0])

/-- The first call finds no room, the second request is dropped, the third has no body. -/
def eventfdActions : List (Action Eventfd.Action) :=
  .accept ⟨"/a", by decide⟩ :: .accept ⟨"/b", by decide⟩ :: .accept ⟨"/c", by decide⟩ ::
    .forward 0 textBody 1 sampleId :: .forward 1 jsonBody 2 otherId ::
    (transports [.register 0, .write 0]).append [.answer 0 "", .drop 1, .bodyFailed 2, .finish 0]

theorem responses_own_reordered :
    (∃ s, run (step parsed shmUds bincodeCodecs) (start shmUds 4096 4096) udsActions = some s ∧
      ∀ h ∈ s.front.handlers, ∀ response, h.stage = .answered response →
        Own parsed h response) ∧
    ∃ s, run (step parsed shmEventfd bincodeCodecs) (start shmEventfd 64 4096) eventfdActions =
      some s ∧
      ∀ h ∈ s.front.handlers, ∀ response, h.stage = .answered response →
        Own parsed h response := by
  have uds : (run (step parsed shmUds bincodeCodecs) (start shmUds 4096 4096)
      udsActions).isSome := by decide +kernel
  have eventfd : (run (step parsed shmEventfd bincodeCodecs) (start shmEventfd 64 4096)
      eventfdActions).isSome := by decide +kernel
  obtain ⟨first, ran⟩ := Option.isSome_iff_exists.mp uds
  obtain ⟨second, ranOn⟩ := Option.isSome_iff_exists.mp eventfd
  exact ⟨⟨first, ran, fun h member response answered =>
      (responses_own ran h member response answered).1⟩,
    ⟨second, ranOn, fun h member response answered =>
      (responses_own ranOn h member response answered).1⟩⟩

end Handlers

end GatewayGrpc.Gateway
