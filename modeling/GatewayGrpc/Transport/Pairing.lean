import GatewayGrpc.Library.Lists
import GatewayGrpc.Library.Run
import Mathlib.Logic.Function.Basic

/-!
# How a gateway and a backend find each other

`ShmServerEventfd::new` and the head of `run` on one side, `ShmTransportEventfd::new` on the other,
in any number of processes that are given the same name. Each step is one call of the kernel. What
an earlier run has left, two ring objects and a socket file, may be there at the start; nobody else
unlinks a name.
-/

namespace GatewayGrpc.Transport
open Library

inductive Role | request | response
  deriving DecidableEq, Repr

/-- The steps of `new` and `run`, in their order: `shm_open` and the initialisation of each ring,
the two eventfds, `remove_file`, `bind`, `accept` and the two `send_eventfd`. -/
inductive BackendPhase
  | opening (role : Role)
  | sizing (role : Role)
  | makingEvents
  | removing
  | binding
  | listening
  | sending (role : Role) (g : Nat)
  | serving (g : Nat)
  | ended
  deriving DecidableEq, Repr

def BackendPhase.Listens : BackendPhase → Bool
  | .listening | .sending _ _ | .serving _ => true
  | _ => false

structure SentEvent where
  backend : Nat
  role : Role
  deriving DecidableEq, Repr

/-- The steps of `new`. A ring is named by the backend that created it, and by `none` if an earlier
run did. -/
inductive GatewayPhase
  | openingRequest (attempts : Nat)
  | openingResponse (requests : Option Nat) (attempts : Nat)
  | connecting (requests responses : Option Nat)
  | receiving (requests responses : Option Nat) (backend : Nat) (requestEvent : Option SentEvent)
  | attached (requests responses : Option Nat) (requestEvent responseEvent : SentEvent)
  | failed
  deriving DecidableEq, Repr

/-- `headers` says which ring objects have their header, `control` whose socket is bound to the
path, `backlog` who has connected to a backend and `stream` what a gateway has not received yet.
`accepted` is history. -/
structure Pairing where
  names : Role → Option (Option Nat)
  headers : Role → Option Nat → Bool
  control : Option (Option Nat)
  backends : List BackendPhase
  gateways : List GatewayPhase
  backlog : Nat → List Nat
  stream : Nat → List SentEvent
  accepted : Nat → Option Nat

namespace Pairing

def start (stale valid : Role → Bool) (socket : Bool) (backends gateways : Nat) : Pairing where
  names := fun role => if stale role then some none else none
  headers := fun role object => object = none ∧ valid role
  control := if socket then some none else none
  backends := List.replicate backends (.opening .request)
  gateways := List.replicate gateways (.openingRequest 0)
  backlog := fun _ => []
  stream := fun _ => []
  accepted := fun _ => none

def setBackend (s : Pairing) (b : Nat) (phase : BackendPhase) : Pairing :=
  { s with backends := s.backends.set b phase }

def setGateway (s : Pairing) (g : Nat) (phase : GatewayPhase) : Pairing :=
  { s with gateways := s.gateways.set g phase }

def afterSizing : Role → BackendPhase
  | .request => .opening .response
  | .response => .makingEvents

def afterSending (g : Nat) : Role → BackendPhase
  | .request => .sending .response g
  | .response => .serving g

def retry (s : Pairing) (g attempts : Nat) (again : Nat → GatewayPhase) : Pairing :=
  s.setGateway g (if 50 < attempts + 1 then .failed else again (attempts + 1))

/-- A call of a backend; `granted` says that the kernel grants it. -/
def backendStep (s : Pairing) (b : Nat) (granted : Bool) : BackendPhase → Option Pairing
  | .opening role =>
      if granted ∧ s.names role = none then
        some { s.setBackend b (.sizing role) with
          names := Function.update s.names role (some (some b)) }
      else some (s.setBackend b .ended)
  | .sizing role =>
      if granted then
        some { s.setBackend b (afterSizing role) with
          headers := Function.update s.headers role
            (Function.update (s.headers role) (some b) true) }
      else some (s.setBackend b .ended)
  | .makingEvents => some (s.setBackend b (if granted then .removing else .ended))
  | .removing =>
      -- the result of `remove_file` is not looked at
      some { s.setBackend b .binding with control := if granted then none else s.control }
  | .binding =>
      if granted ∧ s.control = none then
        some { s.setBackend b .listening with control := some (some b) }
      else some (s.setBackend b .ended)
  | .listening =>
      if granted then
        match s.backlog b with
        | [] => none
        | g :: rest =>
            some { s.setBackend b (.sending .request g) with
              backlog := Function.update s.backlog b rest
              accepted := Function.update s.accepted b (some g) }
      else some (s.setBackend b .ended)
  | .sending role g =>
      if granted then
        some { s.setBackend b (afterSending g role) with
          stream := Function.update s.stream g (s.stream g ++ [⟨b, role⟩]) }
      else some (s.setBackend b .ended)
  | .serving _ => if granted then none else some (s.setBackend b .ended)
  | .ended => none

def gatewayStep (s : Pairing) (g : Nat) (granted : Bool) : GatewayPhase → Option Pairing
  | .openingRequest attempts =>
      match s.names .request with
      | some object =>
          if granted ∧ s.headers .request object then
            some (s.setGateway g (.openingResponse object 0))
          else some (s.retry g attempts .openingRequest)
      | none => some (s.retry g attempts .openingRequest)
  | .openingResponse requests attempts =>
      match s.names .response with
      | some object =>
          if granted ∧ s.headers .response object then
            some (s.setGateway g (.connecting requests object))
          else some (s.retry g attempts (.openingResponse requests))
      | none => some (s.retry g attempts (.openingResponse requests))
  | .connecting requests responses =>
      match s.control with
      | some (some b) =>
          if granted ∧ s.backends[b]?.any BackendPhase.Listens then
            some { s.setGateway g (.receiving requests responses b none) with
              backlog := Function.update s.backlog b (s.backlog b ++ [g]) }
          else some (s.setGateway g .failed)
      | _ => some (s.setGateway g .failed)
  | .receiving requests responses b requestEvent =>
      match s.stream g with
      | event :: rest =>
          if granted then
            match requestEvent with
            | none =>
                some { s.setGateway g (.receiving requests responses b (some event)) with
                  stream := Function.update s.stream g rest }
            | some first =>
                some { s.setGateway g (.attached requests responses first event) with
                  stream := Function.update s.stream g rest }
          else some (s.setGateway g .failed)
      | [] =>
          -- an end of the stream is a message without a descriptor
          if granted ∧ s.backends[b]? ≠ some .ended then none else some (s.setGateway g .failed)
  | .attached _ _ _ _ | .failed => none

inductive Action
  | backend (b : Nat) (granted : Bool)
  | backendKilled (b : Nat)
  | gateway (g : Nat) (granted : Bool)
  | gatewayKilled (g : Nat)

def step (s : Pairing) : Action → Option Pairing
  | .backend b granted => do s.backendStep b granted (← s.backends[b]?)
  | .backendKilled b => do
      let _ ← s.backends[b]?
      some (s.setBackend b .ended)
  | .gateway g granted => do s.gatewayStep g granted (← s.gateways[g]?)
  | .gatewayKilled g => do
      let _ ← s.gateways[g]?
      some (s.setGateway g .failed)

/-! ## What an action does -/

inductive Effect (s : Pairing) : Pairing → Prop
  | ended {b : Nat} {phase : BackendPhase} (here : s.backends[b]? = some phase) :
      Effect s (s.setBackend b .ended)
  | opened {b : Nat} {role : Role} (here : s.backends[b]? = some (.opening role))
      (free : s.names role = none) :
      Effect s { s.setBackend b (.sizing role) with
        names := Function.update s.names role (some (some b)) }
  | sized {b : Nat} {role : Role} (here : s.backends[b]? = some (.sizing role)) :
      Effect s { s.setBackend b (afterSizing role) with
        headers := Function.update s.headers role
          (Function.update (s.headers role) (some b) true) }
  | madeEvents {b : Nat} (here : s.backends[b]? = some .makingEvents) :
      Effect s (s.setBackend b .removing)
  | removed {b : Nat} {control : Option (Option Nat)} (here : s.backends[b]? = some .removing)
      (either : control = none ∨ control = s.control) :
      Effect s { s.setBackend b .binding with control := control }
  | bound {b : Nat} (here : s.backends[b]? = some .binding) (free : s.control = none) :
      Effect s { s.setBackend b .listening with control := some (some b) }
  | accepted {b g : Nat} {rest : List Nat} (here : s.backends[b]? = some .listening)
      (waiting : s.backlog b = g :: rest) :
      Effect s { s.setBackend b (.sending .request g) with
        backlog := Function.update s.backlog b rest
        accepted := Function.update s.accepted b (some g) }
  | sent {b g : Nat} {role : Role} (here : s.backends[b]? = some (.sending role g)) :
      Effect s { s.setBackend b (afterSending g role) with
        stream := Function.update s.stream g (s.stream g ++ [⟨b, role⟩]) }
  | failed {g : Nat} {phase : GatewayPhase} (here : s.gateways[g]? = some phase) :
      Effect s (s.setGateway g .failed)
  | retriedRequest {g n : Nat} (here : s.gateways[g]? = some (.openingRequest n)) :
      Effect s (s.setGateway g (.openingRequest (n + 1)))
  | retriedResponse {g n : Nat} {requests : Option Nat}
      (here : s.gateways[g]? = some (.openingResponse requests n)) :
      Effect s (s.setGateway g (.openingResponse requests (n + 1)))
  | openedRequest {g n : Nat} {object : Option Nat}
      (here : s.gateways[g]? = some (.openingRequest n)) (named : s.names .request = some object) :
      Effect s (s.setGateway g (.openingResponse object 0))
  | openedResponse {g n : Nat} {requests object : Option Nat}
      (here : s.gateways[g]? = some (.openingResponse requests n))
      (named : s.names .response = some object) :
      Effect s (s.setGateway g (.connecting requests object))
  | connected {g b : Nat} {requests responses : Option Nat}
      (here : s.gateways[g]? = some (.connecting requests responses))
      (control : s.control = some (some b))
      (listens : s.backends[b]?.any BackendPhase.Listens) :
      Effect s { s.setGateway g (.receiving requests responses b none) with
        backlog := Function.update s.backlog b (s.backlog b ++ [g]) }
  | received {g b : Nat} {requests responses : Option Nat} {event : SentEvent}
      {rest : List SentEvent}
      (here : s.gateways[g]? = some (.receiving requests responses b none))
      (arrived : s.stream g = event :: rest) :
      Effect s { s.setGateway g (.receiving requests responses b (some event)) with
        stream := Function.update s.stream g rest }
  | attached {g b : Nat} {requests responses : Option Nat} {first event : SentEvent}
      {rest : List SentEvent}
      (here : s.gateways[g]? = some (.receiving requests responses b (some first)))
      (arrived : s.stream g = event :: rest) :
      Effect s { s.setGateway g (.attached requests responses first event) with
        stream := Function.update s.stream g rest }

variable {s u : Pairing} {a : Action} {b g : Nat}

theorem backend_effect {granted : Bool} {phase : BackendPhase}
    (here : s.backends[b]? = some phase) (action : s.backendStep b granted phase = some u) :
    Effect s u := by
  cases phase with
  | opening role =>
      simp only [backendStep] at action
      split at action <;> cases action
      · rename_i free
        exact .opened here free.2
      · exact .ended here
  | sizing role =>
      simp only [backendStep] at action
      split at action <;> cases action
      · exact .sized here
      · exact .ended here
  | makingEvents =>
      cases action
      cases granted with
      | true => exact .madeEvents here
      | false => exact .ended here
  | removing =>
      cases action
      cases granted with
      | true => exact .removed here (.inl rfl)
      | false => exact .removed here (.inr rfl)
  | binding =>
      simp only [backendStep] at action
      split at action <;> cases action
      · rename_i free
        exact .bound here free.2
      · exact .ended here
  | listening =>
      simp only [backendStep] at action
      split at action
      · split at action
        · cases action
        · rename_i waiting
          cases action
          exact .accepted here waiting
      · cases action
        exact .ended here
  | sending role g =>
      simp only [backendStep] at action
      split at action <;> cases action
      · exact .sent here
      · exact .ended here
  | serving g =>
      simp only [backendStep] at action
      split at action <;> cases action
      exact .ended here
  | ended => cases action

theorem retry_effect {attempts : Nat} {phase : GatewayPhase} {again : Nat → GatewayPhase}
    (here : s.gateways[g]? = some phase) (tried : Effect s (s.setGateway g (again (attempts + 1)))) :
    Effect s (s.retry g attempts again) := by
  unfold retry
  split
  · exact .failed here
  · exact tried

theorem gateway_effect {granted : Bool} {phase : GatewayPhase}
    (here : s.gateways[g]? = some phase) (action : s.gatewayStep g granted phase = some u) :
    Effect s u := by
  cases phase with
  | openingRequest n =>
      simp only [gatewayStep] at action
      split at action
      · rename_i object named
        split at action <;> cases action
        · exact .openedRequest here named
        · exact retry_effect here (.retriedRequest here)
      · cases action
        exact retry_effect here (.retriedRequest here)
  | openingResponse requests n =>
      simp only [gatewayStep] at action
      split at action
      · rename_i object named
        split at action <;> cases action
        · exact .openedResponse here named
        · exact retry_effect here (.retriedResponse here)
      · cases action
        exact retry_effect here (.retriedResponse here)
  | connecting requests responses =>
      simp only [gatewayStep] at action
      split at action
      · rename_i b control
        split at action <;> cases action
        · rename_i reached
          exact .connected here control reached.2
        · exact .failed here
      · cases action
        exact .failed here
  | receiving requests responses b requestEvent =>
      simp only [gatewayStep] at action
      split at action
      · rename_i event rest arrived
        split at action
        · cases requestEvent with
          | none =>
              cases action
              exact .received here arrived
          | some first =>
              cases action
              exact .attached here arrived
        · cases action
          exact .failed here
      · split at action <;> cases action
        exact .failed here
  | attached requests responses first second => cases action
  | failed => cases action

theorem step_effect (action : s.step a = some u) : Effect s u := by
  cases a with
  | backend b granted =>
      obtain ⟨phase, here, action⟩ := Option.bind_eq_some_iff.mp action
      exact backend_effect here action
  | backendKilled b =>
      obtain ⟨phase, here, action⟩ := Option.bind_eq_some_iff.mp action
      cases action
      exact .ended here
  | gateway g granted =>
      obtain ⟨phase, here, action⟩ := Option.bind_eq_some_iff.mp action
      exact gateway_effect here action
  | gatewayKilled g =>
      obtain ⟨phase, here, action⟩ := Option.bind_eq_some_iff.mp action
      cases action
      exact .failed here

/-! ## Names and sockets -/

def Owns (s : Pairing) (b : Nat) : Prop := ∀ role, s.names role = some (some b)

theorem Owns.unique {b c : Nat} (first : s.Owns b) (second : s.Owns c) : b = c := by
  have same := (first .request).symm.trans (second .request)
  simpa using same

theorem names_kept (effect : Effect s u) {role : Role} {object : Option Nat}
    (named : s.names role = some object) : u.names role = some object := by
  cases effect with
  | @opened b other here free =>
      have different : role ≠ other := by
        rintro rfl
        cases free.symm.trans named
      rw [← named]
      exact Function.update_of_ne different _ _
  | _ => exact named

end Pairing

def BackendPhase.Claims (names : Role → Option (Option Nat)) (b : Nat) : BackendPhase → Prop
  | .opening .request | .ended => True
  | .sizing .request | .opening .response => names .request = some (some b)
  | _ => ∀ role, names role = some (some b)

theorem BackendPhase.Claims.mono {names later : Role → Option (Option Nat)} {b : Nat}
    {phase : BackendPhase}
    (kept : ∀ role object, names role = some object → later role = some object)
    (claims : phase.Claims names b) : phase.Claims later b := by
  cases phase with
  | opening role | sizing role =>
      cases role with
      | request => first | trivial | exact kept _ _ claims
      | response => first | exact kept _ _ claims | exact fun role => kept _ _ (claims role)
  | ended => trivial
  | _ => exact fun role => kept _ _ (claims role)

def GatewayPhase.Opened (names : Role → Option (Option Nat)) : GatewayPhase → Prop
  | .openingRequest _ | .failed => True
  | .openingResponse requests _ => names .request = some requests
  | .connecting requests responses | .receiving requests responses _ _
  | .attached requests responses _ _ =>
      names .request = some requests ∧ names .response = some responses

theorem GatewayPhase.Opened.mono {names later : Role → Option (Option Nat)} {phase : GatewayPhase}
    (kept : ∀ role object, names role = some object → later role = some object)
    (opened : phase.Opened names) : phase.Opened later := by
  cases phase with
  | openingRequest | failed => trivial
  | openingResponse => exact kept _ _ opened
  | connecting | receiving | attached => exact ⟨kept _ _ opened.1, kept _ _ opened.2⟩

namespace Pairing
variable {s u : Pairing} {a : Action} {b g : Nat}

structure Named (s : Pairing) : Prop where
  claims : ∀ (b : Nat) (phase : BackendPhase), s.backends[b]? = some phase → phase.Claims s.names b
  bound : ∀ b, s.control = some (some b) → s.Owns b
  listens : ∀ (b : Nat) (phase : BackendPhase), s.backends[b]? = some phase → phase.Listens →
    s.control = some (some b)
  opened : ∀ (g : Nat) (phase : GatewayPhase), s.gateways[g]? = some phase → phase.Opened s.names

theorem claims_set {names later : Role → Option (Option Nat)} {backends : List BackendPhase}
    {phase next : BackendPhase}
    (claims : ∀ (c : Nat) (phase : BackendPhase), backends[c]? = some phase → phase.Claims names c)
    (kept : ∀ role object, names role = some object → later role = some object)
    (here : backends[b]? = some phase) (claim : next.Claims later b) :
    ∀ (c : Nat) (phase : BackendPhase), (backends.set b next)[c]? = some phase →
      phase.Claims later c := by
  intro c other there
  rcases getElem?_set_cases here there with ⟨rfl, rfl⟩ | ⟨_, there⟩
  · exact claim
  · exact (claims c other there).mono kept

theorem opened_set {names : Role → Option (Option Nat)} {gateways : List GatewayPhase}
    {phase next : GatewayPhase}
    (opened : ∀ (c : Nat) (phase : GatewayPhase), gateways[c]? = some phase → phase.Opened names)
    (here : gateways[g]? = some phase) (new : next.Opened names) :
    ∀ (c : Nat) (phase : GatewayPhase), (gateways.set g next)[c]? = some phase →
      phase.Opened names := by
  intro c other there
  rcases getElem?_set_cases here there with ⟨rfl, rfl⟩ | ⟨_, there⟩
  · exact new
  · exact opened c other there

theorem Named.claims_step (named : s.Named) (effect : Effect s u) :
    ∀ (b : Nat) (phase : BackendPhase), u.backends[b]? = some phase → phase.Claims u.names b := by
  have kept : ∀ role object, s.names role = some object → u.names role = some object :=
    fun _ _ => names_kept effect
  cases effect with
  | ended here => exact claims_set named.claims kept here trivial
  | @opened b role here free =>
      have claim := named.claims _ _ here
      have now : Function.update s.names role (some (some b)) role = some (some b) :=
        Function.update_self _ _ _
      refine claims_set named.claims kept here ?_
      cases role with
      | request => exact now
      | response =>
          rintro (_ | _)
          · exact kept _ _ claim
          · exact now
  | @sized b role here =>
      have claim := named.claims _ _ here
      refine claims_set named.claims kept here ?_
      cases role <;> exact claim
  | @sent b g role here =>
      have claim := named.claims _ _ here
      refine claims_set named.claims kept here ?_
      cases role <;> exact claim
  | madeEvents here | removed here | bound here | accepted here =>
      have claim := named.claims _ _ here
      exact claims_set named.claims kept here claim
  | _ => exact named.claims

theorem Named.bound_step (named : s.Named) (effect : Effect s u) :
    ∀ b, u.control = some (some b) → u.Owns b := by
  have kept : ∀ b, s.Owns b → u.Owns b := fun _ owns role => names_kept effect (owns role)
  cases effect with
  | removed here either =>
      intro b control
      rcases either with rfl | rfl
      · cases control
      · exact named.bound b control
  | bound here free =>
      intro b control
      cases control
      exact named.claims _ _ here
  | _ => exact fun b control => kept b (named.bound b control)

theorem listens_set {control later : Option (Option Nat)} {backends : List BackendPhase}
    {phase next : BackendPhase}
    (listens : ∀ (c : Nat) (phase : BackendPhase), backends[c]? = some phase → phase.Listens →
      control = some (some c))
    (here : backends[b]? = some phase) (own : next.Listens → later = some (some b))
    (others : ∀ c, c ≠ b → control = some (some c) → later = some (some c)) :
    ∀ (c : Nat) (phase : BackendPhase), (backends.set b next)[c]? = some phase → phase.Listens →
      later = some (some c) := by
  intro c other there listening
  rcases getElem?_set_cases here there with ⟨rfl, rfl⟩ | ⟨away, there⟩
  · exact own listening
  · exact others c (Ne.symm away) (listens c other there listening)

theorem Named.listens_step (named : s.Named) (effect : Effect s u) :
    ∀ (b : Nat) (phase : BackendPhase), u.backends[b]? = some phase → phase.Listens →
      u.control = some (some b) := by
  have same : ∀ c, s.control = some (some c) → s.control = some (some c) := fun _ => id
  cases effect with
  | ended here | madeEvents here =>
      exact listens_set named.listens here (fun never => by cases never) fun c _ => same c
  | opened here free =>
      exact listens_set named.listens here (fun never => by cases never) fun c _ => same c
  | @sized b role here =>
      exact listens_set named.listens here (by cases role <;> exact fun never => by cases never)
        fun c _ => same c
  | @removed b control here either =>
      -- whoever listens owns the rings, and this backend does
      refine listens_set named.listens here (fun never => by cases never) fun c other bound => ?_
      have owner := (named.bound c bound).unique (named.claims _ _ here)
      exact absurd owner other
  | bound here free =>
      refine listens_set named.listens here (fun _ => rfl) fun c _ bound => ?_
      cases free.symm.trans bound
  | accepted here waiting =>
      exact listens_set named.listens here (fun _ => named.listens _ _ here rfl) fun c _ => same c
  | sent here =>
      exact listens_set named.listens here (fun _ => named.listens _ _ here rfl) fun c _ => same c
  | _ => exact named.listens

theorem Named.opened_step (named : s.Named) (effect : Effect s u) :
    ∀ (g : Nat) (phase : GatewayPhase), u.gateways[g]? = some phase → phase.Opened u.names := by
  cases effect with
  | failed here | retriedRequest here => exact opened_set named.opened here trivial
  | openedRequest here object => exact opened_set named.opened here object
  | openedResponse here object =>
      have before := named.opened _ _ here
      exact opened_set named.opened here ⟨before, object⟩
  | retriedResponse here | connected here | received here | attached here =>
      have before := named.opened _ _ here
      exact opened_set named.opened here before
  | opened here free =>
      intro g phase there
      exact (named.opened g phase there).mono fun _ _ => names_kept (.opened here free)
  | _ => exact named.opened

theorem Named.step (named : s.Named) (effect : Effect s u) : u.Named :=
  ⟨named.claims_step effect, named.bound_step effect, named.listens_step effect,
    named.opened_step effect⟩

end Pairing

/-! ## The events on their way -/

def BackendPhase.client : BackendPhase → Option (Option Nat)
  | .sending _ g | .serving g => some (some g)
  | .ended => none
  | _ => some none

def BackendPhase.sent (b : Nat) : BackendPhase → Option (List SentEvent)
  | .sending .request _ => some []
  | .sending .response _ => some [⟨b, .request⟩]
  | .serving _ => some [⟨b, .request⟩, ⟨b, .response⟩]
  | _ => none

def GatewayPhase.got : GatewayPhase → Option (List SentEvent)
  | .failed => none
  | .receiving _ _ _ (some event) => some [event]
  | .attached _ _ first event => some [first, event]
  | _ => some []

namespace Pairing
variable {s u : Pairing} {a : Action} {b g : Nat}

def total (s : Pairing) (g : Nat) : Option (List SentEvent) :=
  (s.gateways[g]?.bind GatewayPhase.got).map (· ++ s.stream g)

structure Paired (s : Pairing) : Prop where
  owner : ∀ b g, s.accepted b = some g → s.Owns b
  known : ∀ b g, s.accepted b = some g → b < s.backends.length
  client : ∀ (b : Nat) (phase : BackendPhase) c, s.backends[b]? = some phase →
    phase.client = some c → s.accepted b = c
  quiet : ∀ g l, s.total g = some l → (∀ b, s.accepted b ≠ some g) → l = []
  inOrder : ∀ b g l, s.total g = some l → s.accepted b = some g →
    l <+: [⟨b, .request⟩, ⟨b, .response⟩]
  sent : ∀ (b g : Nat) l (phase : BackendPhase) l', s.total g = some l → s.accepted b = some g →
    s.backends[b]? = some phase → phase.sent b = some l' → l = l'

theorem Paired.of (paired : s.Paired) (owns : ∀ b, s.Owns b → u.Owns b)
    (accepted : u.accepted = s.accepted) (length : u.backends.length = s.backends.length)
    (backends : ∀ (b : Nat) (phase : BackendPhase), u.backends[b]? = some phase →
      ∃ before : BackendPhase, s.backends[b]? = some before ∧
        (∀ c, phase.client = some c → before.client = some c) ∧
        ∀ l, phase.sent b = some l → before.sent b = some l)
    (totals : ∀ g l, u.total g = some l → s.total g = some l) : u.Paired where
  owner := fun b g held => owns b (paired.owner b g (accepted ▸ held))
  known := fun b g held => length ▸ paired.known b g (accepted ▸ held)
  client := by
    intro b phase c there client
    obtain ⟨before, here, clients, _⟩ := backends b phase there
    exact accepted ▸ paired.client b before c here (clients c client)
  quiet := fun g l total none => paired.quiet g l (totals g l total) (accepted ▸ none)
  inOrder := fun b g l total held => paired.inOrder b g l (totals g l total) (accepted ▸ held)
  sent := by
    intro b g l phase l' total held there sent
    obtain ⟨before, here, _, sents⟩ := backends b phase there
    exact paired.sent b g l before l' (totals g l total) (accepted ▸ held) here (sents l' sent)

theorem backends_set {backends : List BackendPhase} {phase next : BackendPhase}
    (here : backends[b]? = some phase) (client : ∀ c, next.client = some c → phase.client = some c)
    (sent : ∀ l, next.sent b = some l → phase.sent b = some l) :
    ∀ (c : Nat) (later : BackendPhase), (backends.set b next)[c]? = some later →
      ∃ before : BackendPhase, backends[c]? = some before ∧
        (∀ d, later.client = some d → before.client = some d) ∧
        ∀ l, later.sent c = some l → before.sent c = some l := by
  intro c later there
  rcases getElem?_set_cases here there with ⟨rfl, rfl⟩ | ⟨_, there⟩
  · exact ⟨phase, here, client, sent⟩
  · exact ⟨later, there, fun _ => id, fun _ => id⟩

theorem total_set {s u : Pairing} {phase next : GatewayPhase} (here : s.gateways[g]? = some phase)
    (gateways : u.gateways = s.gateways.set g next)
    (others : ∀ c, c ≠ g → u.stream c = s.stream c)
    (same : ∀ got, next.got = some got →
      ∃ before, phase.got = some before ∧ got ++ u.stream g = before ++ s.stream g) :
    ∀ c l, u.total c = some l → s.total c = some l := by
  intro c l total
  obtain ⟨got, found, rfl⟩ := Option.map_eq_some_iff.mp total
  obtain ⟨later, there, gotten⟩ := Option.bind_eq_some_iff.mp found
  rw [gateways] at there
  rcases getElem?_set_cases here there with ⟨rfl, rfl⟩ | ⟨away, there⟩
  · obtain ⟨before, first, equal⟩ := same got gotten
    simp [Pairing.total, here, first, equal]
  · simp [Pairing.total, there, gotten, others c (Ne.symm away)]

theorem Paired.accept (paired : s.Paired) (named : s.Named) {rest : List Nat}
    (here : s.backends[b]? = some .listening) :
    Paired { s.setBackend b (.sending .request g) with
      backlog := Function.update s.backlog b rest
      accepted := Function.update s.accepted b (some g) } := by
  have owns : s.Owns b := named.claims b _ here
  have none : ∀ c h, s.accepted c ≠ some h := by
    intro c h held
    obtain rfl := (paired.owner c h held).unique owns
    cases (paired.client c _ _ here rfl).symm.trans held
  have held : ∀ c h, Function.update s.accepted b (some g) c = some h → c = b ∧ h = g := by
    intro c h held
    by_cases same : c = b
    · subst same
      rw [Function.update_self] at held
      exact ⟨rfl, (Option.some.inj held).symm⟩
    · rw [Function.update_of_ne same] at held
      exact absurd held (none c h)
  have empty : ∀ h l, s.total h = some l → l = [] :=
    fun h l total => paired.quiet h l total fun c => none c h
  constructor
  · intro c h accepted
    rw [(held c h accepted).1]
    exact owns
  · intro c h accepted
    rw [(held c h accepted).1, setBackend, List.length_set]
    exact lt_of_getElem?_eq here
  · intro c phase d there client
    rcases getElem?_set_cases here there with ⟨rfl, rfl⟩ | ⟨away, there⟩
    · cases client
      exact Function.update_self _ _ _
    · have kept : Function.update s.accepted b (some g) c = s.accepted c :=
        Function.update_of_ne (Ne.symm away) _ _
      exact kept.trans (paired.client c phase d there client)
  · intro h l total _
    exact empty h l total
  · intro c h l total _
    rw [empty h l total]
    exact List.nil_prefix
  · intro c h l phase l' total accepted there sent
    obtain ⟨rfl, rfl⟩ := held c h accepted
    rcases getElem?_set_cases here there with ⟨_, rfl⟩ | ⟨away, _⟩
    · cases sent
      exact empty h l total
    · exact absurd rfl away

theorem total_send {role : Role} {phase : BackendPhase} (h : Nat) (l : List SentEvent)
    (total : Pairing.total { s.setBackend b phase with
      stream := Function.update s.stream g (s.stream g ++ [⟨b, role⟩]) } h = some l) :
    (h ≠ g ∧ s.total h = some l) ∨
      h = g ∧ ∃ before, s.total g = some before ∧ l = before ++ [⟨b, role⟩] := by
  obtain ⟨got, found, rfl⟩ := Option.map_eq_some_iff.mp total
  by_cases same : h = g
  · subst same
    refine .inr ⟨rfl, got ++ s.stream h, ?_, ?_⟩
    · exact Option.map_eq_some_iff.mpr ⟨got, found, rfl⟩
    · dsimp only
      rw [Function.update_self, List.append_assoc]
  · refine .inl ⟨same, Option.map_eq_some_iff.mpr ⟨got, found, ?_⟩⟩
    dsimp only
    rw [Function.update_of_ne same]

theorem Paired.send (paired : s.Paired) {role : Role}
    (here : s.backends[b]? = some (.sending role g)) :
    Paired { s.setBackend b (afterSending g role) with
      stream := Function.update s.stream g (s.stream g ++ [⟨b, role⟩]) } := by
  have client : s.accepted b = some g := paired.client b _ _ here rfl
  have only : ∀ c, s.accepted c = some g → c = b :=
    fun c held => (paired.owner c g held).unique (paired.owner b g client)
  constructor
  · exact paired.owner
  · intro c h held
    rw [setBackend, List.length_set]
    exact paired.known c h held
  · intro c phase d there clients
    rcases getElem?_set_cases here there with ⟨rfl, rfl⟩ | ⟨_, there⟩
    · refine paired.client b _ d here ?_
      cases role <;> exact clients
    · exact paired.client c phase d there clients
  · intro h l total none
    rcases total_send h l total with ⟨_, before⟩ | ⟨rfl, _⟩
    · exact paired.quiet h l before none
    · exact absurd client (none b)
  · intro c h l total held
    rcases total_send h l total with ⟨_, before⟩ | ⟨rfl, before, earlier, rfl⟩
    · exact paired.inOrder c h l before held
    · obtain rfl := only c held
      cases role with
      | request =>
          rw [paired.sent c h before _ [] earlier client here rfl]
          exact ⟨[⟨c, .response⟩], rfl⟩
      | response =>
          rw [paired.sent c h before _ [⟨c, .request⟩] earlier client here rfl]
          exact ⟨[], rfl⟩
  · intro c h l phase l' total held there sent
    rcases total_send h l total with ⟨other, before⟩ | ⟨rfl, before, earlier, rfl⟩
    · rcases getElem?_set_cases here there with ⟨rfl, rfl⟩ | ⟨_, there⟩
      · exact absurd (Option.some.inj (held.symm.trans client)) other
      · exact paired.sent c h l phase l' before held there sent
    · obtain rfl := only c held
      rcases getElem?_set_cases here there with ⟨_, rfl⟩ | ⟨away, _⟩
      · cases role with
        | request =>
            rw [paired.sent c h before _ [] earlier client here rfl]
            exact Option.some.inj sent
        | response =>
            rw [paired.sent c h before _ [⟨c, .request⟩] earlier client here rfl]
            exact Option.some.inj sent
      · exact absurd rfl away

theorem Paired.step (paired : s.Paired) (named : s.Named) (effect : Effect s u) : u.Paired := by
  have owns : ∀ b, s.Owns b → u.Owns b := fun _ owns role => names_kept effect (owns role)
  have still : ∀ (b : Nat) (phase : BackendPhase), s.backends[b]? = some phase →
      ∃ before : BackendPhase, s.backends[b]? = some before ∧
        (∀ c, phase.client = some c → before.client = some c) ∧
        ∀ l, phase.sent b = some l → before.sent b = some l :=
    fun _ phase here => ⟨phase, here, fun _ => id, fun _ => id⟩
  cases effect with
  | ended here =>
      exact paired.of owns rfl List.length_set
        (backends_set here (fun _ none => by cases none) fun _ none => by cases none) fun _ _ => id
  | @opened b role here free =>
      exact paired.of owns rfl List.length_set
        (backends_set here (fun _ => id) fun _ none => by cases none) fun _ _ => id
  | @sized b role here =>
      refine paired.of owns rfl List.length_set (backends_set here ?_ ?_) fun _ _ => id
      · cases role <;> exact fun _ => id
      · cases role <;> exact fun _ none => by cases none
  | madeEvents here | removed here | bound here =>
      exact paired.of owns rfl List.length_set
        (backends_set here (fun _ => id) fun _ none => by cases none) fun _ _ => id
  | accepted here waiting => exact paired.accept named here
  | sent here => exact paired.send here
  | failed here =>
      exact paired.of owns rfl rfl still
        (total_set here rfl (fun _ _ => rfl) fun _ none => by cases none)
  | retriedRequest here | retriedResponse here | openedRequest here | openedResponse here
  | connected here =>
      exact paired.of owns rfl rfl still
        (total_set here rfl (fun _ _ => rfl) fun got same => ⟨got, same, rfl⟩)
  | received here arrived | attached here arrived =>
      refine paired.of owns rfl rfl still
        (total_set here rfl (fun c away => Function.update_of_ne away _ _) fun got same => ?_)
      cases same
      exact ⟨_, rfl, by simp [arrived]⟩

/-! ## Runs -/

theorem named_start (stale valid : Role → Bool) (socket : Bool) (m n : Nat) :
    Named (start stale valid socket m n) where
  claims := by
    intro b phase there
    rw [List.eq_of_mem_replicate (List.mem_of_getElem? there)]
    trivial
  bound := by
    intro b control
    cases socket <;> cases control
  listens := by
    intro b phase there listening
    rw [List.eq_of_mem_replicate (List.mem_of_getElem? there)] at listening
    cases listening
  opened := by
    intro g phase there
    rw [List.eq_of_mem_replicate (List.mem_of_getElem? there)]
    trivial

theorem paired_start (stale valid : Role → Bool) (socket : Bool) (m n : Nat) :
    Paired (start stale valid socket m n) where
  owner := fun _ _ held => by cases held
  known := fun _ _ held => by cases held
  client := by
    intro b phase c there client
    rw [List.eq_of_mem_replicate (List.mem_of_getElem? there)] at client
    exact Option.some.inj client
  quiet := by
    intro g l total _
    obtain ⟨got, found, rfl⟩ := Option.map_eq_some_iff.mp total
    obtain ⟨phase, there, gotten⟩ := Option.bind_eq_some_iff.mp found
    rw [List.eq_of_mem_replicate (List.mem_of_getElem? there)] at gotten
    cases gotten
    rfl
  inOrder := fun _ _ _ _ held => by cases held
  sent := fun _ _ _ _ _ _ held => by cases held

theorem of_run {stale valid : Role → Bool} {socket : Bool} {m n : Nat} {actions : List Action}
    (ran : run step (start stale valid socket m n) actions = some s) : s.Named ∧ s.Paired := by
  have steps : ∀ (s : Pairing) a u, s.Named ∧ s.Paired → s.step a = some u → u.Named ∧ u.Paired :=
    fun _ _ _ both action =>
      ⟨both.1.step (step_effect action), both.2.step both.1 (step_effect action)⟩
  exact run_preserves steps ⟨named_start .., paired_start ..⟩ ran

theorem Paired.attached (paired : s.Paired) {requests responses : Option Nat}
    {first second : SentEvent}
    (there : s.gateways[g]? = some (.attached requests responses first second)) :
    ∃ b, s.accepted b = some g ∧ first = ⟨b, .request⟩ ∧ second = ⟨b, .response⟩ ∧
      (s.backends[b]? = some (.serving g) ∨ s.backends[b]? = some .ended) := by
  have total : s.total g = some ([first, second] ++ s.stream g) := by
    simp [Pairing.total, there, GatewayPhase.got]
  have held : ∃ b, s.accepted b = some g := by
    by_contra nobody
    have empty := paired.quiet g _ total fun b held => nobody ⟨b, held⟩
    cases empty
  obtain ⟨b, held⟩ := held
  obtain ⟨rest, both⟩ := paired.inOrder b g _ total held
  simp only [List.cons_append, List.nil_append, List.cons.injEq] at both
  refine ⟨b, held, both.1, both.2.1, ?_⟩
  obtain ⟨phase, here⟩ : ∃ phase, s.backends[b]? = some phase :=
    ⟨_, List.getElem?_eq_getElem (paired.known b g held)⟩
  cases phase with
  | serving c =>
      obtain rfl : c = g := Option.some.inj ((paired.client b _ _ here rfl).symm.trans held)
      exact .inl here
  | ended => exact .inr here
  | sending role c =>
      cases role with
      | request => cases paired.sent b g _ _ _ total held here rfl
      | response => cases paired.sent b g _ _ _ total held here rfl
  | _ => cases (paired.client b _ _ here rfl).symm.trans held

end Pairing

end GatewayGrpc.Transport
