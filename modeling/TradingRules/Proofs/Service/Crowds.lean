import TradingRules.Proofs.Service.Routines
import TradingRules.Proofs.Store.Existence

/-!
# Crowds of clients

Many clients use a service at once, and between two calls of one come calls of the others. The route
that starts a logic relies on what it has loaded, and the route that deletes one on what it has
stopped. What they rely on holds as long as nobody starts a logic while another deletes it.
-/

namespace TradingRules

open Store (Book Represents)

namespace Service

/-! ### Crowds -/

/-- A request, and what is left of its routine. -/
structure Client where
  request : Request
  rest : Routine Response

/-- Is there a call left to be made? -/
def Client.InProgress (client : Client) : Prop :=
  ∃ c next, client.rest = .call c next

instance (client : Client) : Decidable client.InProgress :=
  match h : client.rest with
  | .done _ => isFalse fun ⟨_, _, hcall⟩ => nomatch h.symm.trans hcall
  | .call c next => isTrue ⟨c, next, h⟩

/-- A service and its clients, and what its store was called to do so far. -/
structure Crowd (τ : Type) where
  state : State τ
  clients : List Client := []
  journal : List Store.Call := []

inductive Move where
  /-- A request comes in. -/
  | arrive (request : Request)
  /-- A client makes its next call, if it has one. -/
  | advance (k : Nat)
  /-- The supervisor handles what the worker of a run has sent. -/
  | hear (run : Nat) (message : Value)
  /-- The worker of a run is lost. -/
  | lose (run : Nat) (reason : String)

section

variable {τ : Type} (setup : Setup τ)

def Crowd.move (crowd : Crowd τ) : Move → Crowd τ
  | .arrive request => { crowd with clients := crowd.clients ++ [⟨request, request.routine⟩] }
  | .advance k =>
    match crowd.clients[k]? with
    | some ⟨request, .call c next⟩ =>
      let (answer, state) := (setup.perform c).exec crowd.state
      { state
        clients := crowd.clients.set k ⟨request, next answer⟩
        journal := crowd.journal ++ (c.stored? setup crowd.state).toList }
    | _ => crowd
  | .hear run message =>
    let step := onSupervisor (Supervisor.listen setup.resources run message)
    { crowd with state := (step.exec crowd.state).2 }
  | .lose run reason =>
    { crowd with state := ((onSupervisor (Supervisor.fail run reason)).exec crowd.state).2 }

/-- The crowd after some moves. In the beginning there is nothing in the store and no client. -/
def Setup.crowd (outside : Outside τ) (moves : List Move) : Crowd τ :=
  moves.foldl (Crowd.move setup) { state := { outside } }

end

namespace Crowd

variable {τ : Type} (crowd : Crowd τ)

def book : Book :=
  Book.afterCalls crowd.journal

/-- Has a request for a route come in that is not answered yet? -/
def Serves (route : Route) : Prop :=
  ∃ client ∈ crowd.clients, client.request.Asks route ∧ client.InProgress

/-- Is a logic about to be started while it is about to be deleted? -/
def Races (id : String) : Prop :=
  crowd.Serves (.start id) ∧ crowd.Serves (.delete id)

def Runs (id : String) : Prop :=
  crowd.state.supervisor.Runs (.text id)

theorem runs_iff {crowd : Crowd τ} {id : String} : crowd.Runs id ↔
    ∃ r ∈ crowd.state.supervisor.runs, r.registered = true ∧ r.id.text? = some id := by
  constructor
  · rintro ⟨k, r, hr, hup, hid⟩
    exact ⟨r, List.mem_of_getElem? hr, hup, by rw [hid]; rfl⟩
  · rintro ⟨r, hr, hup, hid⟩
    obtain ⟨k, hk⟩ := List.getElem?_of_mem hr
    exact ⟨k, r, hk, hup, Store.eq_text_of_text?_eq_some hid⟩

instance (id : String) : Decidable (crowd.Runs id) :=
  decidable_of_iff _ runs_iff.symm

def Quiet : Prop :=
  ∀ client ∈ crowd.clients, ¬ client.InProgress

instance : Decidable crowd.Quiet :=
  inferInstanceAs (Decidable (∀ client ∈ crowd.clients, ¬ client.InProgress))

/-- Does the book of the store have a record of this logic? -/
def Keeps (id : String) : Prop :=
  id ∈ crowd.book.map (·.id)

end Crowd

/-! ### What clients rely on -/

/-- How far a client has come. One that has loaded the logic that it starts relies on it to be kept,
and one that has stopped the logic that it deletes relies on it to be down. -/
inductive Client.Fits (client : Client) (x : String) (kept up : Prop) : Prop
  | mild (h : client.rest.Only Call.Mild)
  | start (id : String) (hasks : client.request.Asks (.start id))
      (h : client.rest.Guarded (.loadLogic id) fun c => c.starts? = some id)
  | loaded (id : String) (hasks : client.request.Asks (.start id))
      (h : client.rest.Only fun c => c.Mild ∨ c.starts? = some id) (hkept : id = x → kept)
  | delete (id : String) (hasks : client.request.Asks (.delete id))
      (h : client.rest.Guarded (.stopLogic id) fun c => c.deletes? = some id)
  | stopped (id : String) (hasks : client.request.Asks (.delete id))
      (h : client.rest.Only fun c => c.Mild ∨ c.deletes? = some id) (hdown : id = x → ¬ up)

namespace Client.Fits

variable {client : Client} {x : String} {kept up kept' up' : Prop}

/-- A client that has come in. -/
theorem arrive (request : Request) : Fits ⟨request, request.routine⟩ x kept up := by
  rcases request.routine_cases with h | ⟨id, hasks, h⟩ | ⟨id, hasks, h⟩
  · exact .mild h
  · exact .start id hasks h
  · exact .delete id hasks h

variable (h : client.Fits x kept up)
include h

/-- What others do need not matter to a client that has been answered, nor to one that does not rely
on it. -/
theorem keep (hkept : client.InProgress → client.request.Asks (.start x) → kept → kept')
    (hup : client.InProgress → client.request.Asks (.delete x) → up' → up) :
    client.Fits x kept' up' := by
  cases hrest : client.rest with
  | done response => exact .mild (hrest ▸ .done response)
  | call c next =>
    have hbusy : client.InProgress := ⟨c, next, hrest⟩
    cases h with
    | mild h => exact .mild h
    | start id hasks h => exact .start id hasks h
    | loaded id hasks h hrely =>
      exact .loaded id hasks h fun hid => hkept hbusy (hid ▸ hasks) (hrely hid)
    | delete id hasks h => exact .delete id hasks h
    | stopped id hasks h hdown =>
      exact .stopped id hasks h fun hid hup' => hdown hid (hup hbusy (hid ▸ hasks) hup')

variable {c : Call} {next : Outcome Value → Routine Response} (hrest : client.rest = .call c next)
include hrest

/-- A client that is about to start a logic has loaded it, and one that is about to delete a logic
has stopped it. -/
theorem call_cases : c.Mild ∨
    (∃ id, c.starts? = some id ∧ client.request.Asks (.start id) ∧ (id = x → kept)) ∨
    ∃ id, c.deletes? = some id ∧ client.request.Asks (.delete id) ∧ (id = x → ¬ up) := by
  obtain ⟨request, rest⟩ := client
  subst hrest
  cases h with
  | mild h =>
    cases h with
    | call hmild hnext => exact .inl hmild
  | start id hasks h =>
    cases h with
    | call hok herror => exact .inl ⟨rfl, rfl⟩
  | loaded id hasks h hrely =>
    cases h with
    | call hkind hnext => exact hkind.imp_right fun hid => .inl ⟨id, hid, hasks, hrely⟩
  | delete id hasks h =>
    cases h with
    | call hok herror => exact .inl ⟨rfl, rfl⟩
  | stopped id hasks h hdown =>
    cases h with
    | call hkind hnext => exact hkind.imp_right fun hid => .inr ⟨id, hid, hasks, hdown⟩

/-- A client that has made its call. -/
theorem advance {answer : Outcome Value} (hkept : c.deletes? = none → kept → kept')
    (hup : c.starts? = none → up' → up) (hload : ∀ v, c = .loadLogic x → answer = .ok v → kept')
    (hstop : c = .stopLogic x → ¬ up') :
    Fits ⟨client.request, next answer⟩ x kept' up' := by
  obtain ⟨request, rest⟩ := client
  subst hrest
  cases h with
  | mild h =>
    cases h with
    | call hmild hnext => exact .mild (hnext answer)
  | start id hasks h =>
    cases h with
    | call hok herror =>
      cases answer with
      | ok v => exact .loaded id hasks (hok v) fun hid => hload v (hid ▸ rfl) rfl
      | error e => exact .mild (herror e)
  | loaded id hasks h hrely =>
    cases h with
    | call hkind hnext =>
      have hdeletes : c.deletes? = none := hkind.elim (·.2) Call.deletes?_of_starts
      exact .loaded id hasks (hnext answer) fun hid => hkept hdeletes (hrely hid)
  | delete id hasks h =>
    cases h with
    | call hok herror =>
      cases answer with
      | ok v => exact .stopped id hasks (hok v) fun hid => hstop (hid ▸ rfl)
      | error e => exact .mild (herror e)
  | stopped id hasks h hdown =>
    cases h with
    | call hkind hnext =>
      have hstarts : c.starts? = none := hkind.elim (·.1) Call.starts?_of_deletes
      exact .stopped id hasks (hnext answer) fun hid hup' => hdown hid (hup hstarts hup')

end Client.Fits

/-! ### What every move keeps -/

/-- What holds at all times: the store has the records of the book, and a logic that is running is
one of them, as is what the clients rely on. -/
structure Crowd.Sound {τ : Type} (crowd : Crowd τ) (x : String) : Prop where
  store : Represents crowd.state.store crowd.book
  keyed : crowd.state.supervisor.Keyed
  kept : crowd.Runs x → crowd.Keeps x
  clients : ∀ client ∈ crowd.clients, client.Fits x (crowd.Keeps x) (crowd.Runs x)

namespace Crowd.Sound

variable {τ : Type} {setup : Setup τ} {crowd : Crowd τ} {x : String} (h : crowd.Sound x)
include h

theorem arrive (request : Request) : (crowd.move setup (.arrive request)).Sound x where
  store := h.store
  keyed := h.keyed
  kept := h.kept
  clients client hclient := by
    rcases List.mem_append.mp hclient with hclient | hclient
    · exact h.clients client hclient
    · rw [List.mem_singleton.mp hclient]
      exact .arrive request

/-- What the supervisor does by itself brings no run up. -/
theorem wane {step : Supervisor.Action (Outside τ) Unit} (hstep : Supervisor.Wanes step) :
    Sound { crowd with state := ((onSupervisor step).exec crowd.state).2 } x := by
  have hbelow := hstep.below (crowd.state.supervisor, crowd.state.outside)
  exact
    { store := h.store
      keyed := hbelow.keyed h.keyed
      kept := fun hup => h.kept (hbelow.runs hup)
      clients := fun client hclient =>
        (h.clients client hclient).keep (fun _ _ => id) fun _ _ => hbelow.runs }

end Crowd.Sound

section

variable {τ : Type} {setup : Setup τ} {crowd : Crowd τ} {x : String} {k : Nat} {request : Request}
  {c : Call} {next : Outcome Value → Routine Response}

theorem Crowd.move_advance (hclient : crowd.clients[k]? = some ⟨request, .call c next⟩) :
    crowd.move setup (.advance k) =
      let made := (setup.perform c).exec crowd.state
      { state := made.2
        clients := crowd.clients.set k ⟨request, next made.1⟩
        journal := crowd.journal ++ (c.stored? setup crowd.state).toList } := by
  rw [move, hclient]

theorem Crowd.book_advance (hclient : crowd.clients[k]? = some ⟨request, .call c next⟩) :
    (crowd.move setup (.advance k)).book =
      ((c.stored? setup crowd.state).map fun d => d.after crowd.book).getD crowd.book := by
  rw [move_advance hclient, book, book]
  cases c.stored? setup crowd.state with
  | none => simp
  | some d => simp [Book.afterCalls]

theorem Call.deletes?_of_stored {s : State τ} {id : String}
    (h : c.stored? setup s = some (.delete (.text id))) : c.deletes? = some id := by
  cases c with
  | deleteLogic t => simpa [stored?, deletes?] using h
  | createLogic | saveLogic | reorderLogics => simp [stored?] at h
  | _ => cases h

theorem Crowd.runs_advance (hclient : crowd.clients[k]? = some ⟨request, .call c next⟩)
    (hc : c.starts? ≠ some x) (hx : (crowd.move setup (.advance k)).Runs x) : crowd.Runs x := by
  rw [Runs, move_advance hclient] at hx
  exact (runs_perform hx).resolve_right hc

namespace Crowd.Sound

variable (h : crowd.Sound x) (hclient : crowd.clients[k]? = some ⟨request, .call c next⟩)
include h hclient

theorem keeps_advance (hc : c.deletes? ≠ some x) (hx : crowd.Keeps x) :
    (crowd.move setup (.advance k)).Keeps x := by
  rw [Keeps, book_advance hclient]
  cases hstored : c.stored? setup crowd.state with
  | none => exact hx
  | some d =>
    exact Store.Call.mem_ids_after h.store.distinct
      (fun hd => hc (Call.deletes?_of_stored (hd ▸ hstored))) hx

theorem represents_advance (hread : ∀ v ∈ Book.documents crowd.book, Json.ReadsBack v)
    (hnew : ∀ d, c.stored? setup crowd.state = some d → ∀ unique, d.unique? = some unique →
      Store.isId ("logic-" ++ unique) = true ∧ ∀ r ∈ crowd.book, r.id ≠ "logic-" ++ unique) :
    Represents (crowd.move setup (.advance k)).state.store
      (crowd.move setup (.advance k)).book := by
  have hindex := (h.store.shows hread).index
  rw [book_advance hclient, move_advance hclient]
  dsimp only
  rw [store_perform setup _ c hindex]
  cases hstored : c.stored? setup crowd.state with
  | none => exact h.store
  | some d => exact (h.store.step hread (hnew d hstored)).1

/-- One call of a client. The two calls that could do harm are the start of a logic, which another
client may be about to delete, and deleting a logic, which another may be about to start. -/
theorem advance (hindex : x ≠ "index") (hrace : ¬ crowd.Races x)
    (hread : ∀ v ∈ Book.documents crowd.book, Json.ReadsBack v)
    (hnew : ∀ d, c.stored? setup crowd.state = some d → ∀ unique, d.unique? = some unique →
      Store.isId ("logic-" ++ unique) = true ∧ ∀ r ∈ crowd.book, r.id ≠ "logic-" ++ unique) :
    (crowd.move setup (.advance k)).Sound x := by
  have hmember := List.mem_of_getElem? hclient
  have hfits := h.clients _ hmember
  have hcases := hfits.call_cases rfl
  have hserves : ∀ {route}, request.Asks route → crowd.Serves route := fun hasks =>
    ⟨_, hmember, hasks, c, next, rfl⟩
  -- Who makes one of the two calls is bound by its routine to have loaded or stopped the logic, and
  -- is in progress itself, so nobody who would undo that is.
  have hstarts : c.starts? = some x → crowd.Serves (.start x) ∧ crowd.Keeps x := by
    intro hc
    rcases hcases with hmild | ⟨id, hid, hasks, hkept⟩ | ⟨id, hid, hasks, hdown⟩
    · simp [hmild.1] at hc
    · obtain rfl := Option.some.inj (hid.symm.trans hc)
      exact ⟨hserves hasks, hkept rfl⟩
    · simp [Call.starts?_of_deletes hid] at hc
  have hdeletes : c.deletes? = some x → crowd.Serves (.delete x) ∧ ¬ crowd.Runs x := by
    intro hc
    rcases hcases with hmild | ⟨id, hid, hasks, hkept⟩ | ⟨id, hid, hasks, hdown⟩
    · simp [hmild.2] at hc
    · simp [Call.deletes?_of_starts hid] at hc
    · obtain rfl := Option.some.inj (hid.symm.trans hc)
      exact ⟨hserves hasks, hdown rfl⟩
  have hkeeps : c.deletes? ≠ some x → crowd.Keeps x → (crowd.move setup (.advance k)).Keeps x :=
    h.keeps_advance hclient
  have hruns : c.starts? ≠ some x → (crowd.move setup (.advance k)).Runs x → crowd.Runs x :=
    runs_advance hclient
  refine ⟨h.represents_advance hclient hread hnew, ?_, ?_, ?_⟩
  · rw [move_advance hclient]
    exact keyed_perform h.keyed
  · intro hup
    -- A run that comes up was loaded, and one that was up before is not deleted under it.
    by_cases hc : c.starts? = some x
    · exact hkeeps (by simp [Call.deletes?_of_starts hc]) (hstarts hc).2
    · have hbefore := hruns hc hup
      exact hkeeps (fun hdelete => (hdeletes hdelete).2 hbefore) (h.kept hbefore)
  · intro client hmem
    rw [move_advance hclient] at hmem
    rcases List.mem_or_eq_of_mem_set hmem with hother | rfl
    -- Two clients in progress, of which one starts the logic and the other deletes it, are a race.
    · refine (h.clients client hother).keep (fun hbusy hasks => hkeeps fun hdelete => ?_)
        fun hbusy hasks => hruns fun hstart => ?_
      · exact hrace ⟨⟨client, hother, hasks, hbusy⟩, (hdeletes hdelete).1⟩
      · exact hrace ⟨(hstarts hstart).1, ⟨client, hother, hasks, hbusy⟩⟩
    · refine hfits.advance rfl (fun hc => hkeeps (by simp [hc])) (fun hc => hruns (by simp [hc]))
        (fun v hload hanswer => ?_) fun hstop hup => ?_
      · subst hload
        rw [exec_loadLogic] at hanswer
        exact hkeeps (by simp [Call.deletes?]) (h.store.mem_ids_of_load hindex hanswer)
      · subst hstop
        rw [Runs, move_advance hclient] at hup
        exact not_runs_perform_stop h.keyed x hup

omit hclient in
/-- Whatever happens next, logics that are running stay in the book. -/
theorem move (m : Move) (hindex : x ≠ "index") (hrace : ¬ crowd.Races x)
    (hread : ∀ v ∈ Book.documents crowd.book, Json.ReadsBack v)
    (hnew : ∀ d, (crowd.move setup m).journal = crowd.journal ++ [d] →
      ∀ unique, d.unique? = some unique → Store.isId ("logic-" ++ unique) = true ∧
        ∀ r ∈ crowd.book, r.id ≠ "logic-" ++ unique) :
    (crowd.move setup m).Sound x := by
  cases m with
  | arrive request => exact h.arrive request
  | hear run message => exact h.wane (.listen setup.resources run message)
  | lose run reason => exact h.wane (.fail run reason)
  | advance k =>
    cases hclient : crowd.clients[k]? with
    | none => rwa [Crowd.move, hclient]
    | some client =>
      obtain ⟨request, response | ⟨c, next⟩⟩ := client
      · rwa [Crowd.move, hclient]
      · refine h.advance hclient hindex hrace hread fun d hd => hnew d ?_
        simp [move_advance hclient, hd]

end Crowd.Sound

end

end Service

end TradingRules
