import TradingRules.Proofs.Logic.Account
import TradingRules.Proofs.Service.Bodies
import TradingRules.Proofs.Service.Crowds

/-!
# Deleted logics do not run

However the calls of many clients interleave, a running logic is in the list of the store, unless it
is started while it is deleted: a start that has loaded a logic before it is deleted, and makes its
last call afterwards, runs a logic that is no longer there. The file of the index is the one file
that can be loaded, and so be run, without being listed.
-/

namespace TradingRules

open Store (Book)

namespace Service

/-! ### Whole histories -/

section

variable {τ : Type} (setup : Setup τ) (outside : Outside τ)

/-- At all times the runs that are up are those of different logics. -/
theorem Crowd.keyed_move {crowd : Crowd τ} (h : crowd.state.supervisor.Keyed) (m : Move) :
    (crowd.move setup m).state.supervisor.Keyed := by
  have hwane : ∀ step : Supervisor.Action (Outside τ) Unit, Supervisor.Wanes step →
      ((onSupervisor step).exec crowd.state).2.supervisor.Keyed := fun _ hstep =>
    (hstep.below (crowd.state.supervisor, crowd.state.outside)).keyed h
  cases m with
  | arrive request => exact h
  | hear run message =>
    exact hwane (Supervisor.listen setup.resources run message) (.listen _ run message)
  | lose run reason => exact hwane (Supervisor.fail run reason) (.fail run reason)
  | advance k =>
    rw [move]
    split
    · exact keyed_perform h
    · exact h

theorem Crowd.journal_move (crowd : Crowd τ) (m : Move) :
    crowd.journal <+: (crowd.move setup m).journal := by
  cases m with
  | arrive | hear | lose => exact List.prefix_refl _
  | advance k =>
    rw [move]
    split
    · exact List.prefix_append _ _
    · exact List.prefix_refl _

theorem Setup.crowd_concat (moves : List Move) (m : Move) :
    setup.crowd outside (moves ++ [m]) = (setup.crowd outside moves).move setup m :=
  List.foldl_concat _ _ _ _

theorem Setup.journal_crowd {early moves : List Move} (hearly : early <+: moves) :
    (setup.crowd outside early).journal <+: (setup.crowd outside moves).journal := by
  obtain ⟨rest, rfl⟩ := hearly
  induction rest using List.reverseRecOn with
  | nil => rw [List.append_nil]
  | append_singleton rest m ih =>
    rw [← List.append_assoc, crowd_concat]
    exact ih.trans (Crowd.journal_move setup _ m)

theorem Setup.keyed_crowd (moves : List Move) :
    (setup.crowd outside moves).state.supervisor.Keyed := by
  induction moves using List.reverseRecOn with
  | nil => exact Supervisor.State.keyed_nil
  | append_singleton moves m ih =>
    rw [crowd_concat]
    exact Crowd.keyed_move setup ih m

theorem Crowd.sound_nil (x : String) : (setup.crowd outside []).Sound x where
  store := Store.represents_nil
  keyed := Supervisor.State.keyed_nil
  kept := by
    rintro ⟨k, r, hr, -⟩
    cases hr
  clients _ hclient := by cases hclient

variable {setup outside} {moves : List Move}
  (hdistinct : ((setup.crowd outside moves).journal.filterMap Store.Call.unique?).Nodup)
  (hids : ∀ unique ∈ (setup.crowd outside moves).journal.filterMap Store.Call.unique?,
    Store.isId ("logic-" ++ unique) = true)
  (hjson : ∀ early, early <+: (setup.crowd outside moves).journal →
    ∀ v ∈ Book.documents (Book.afterCalls early), Json.ReadsBack v)
include hdistinct hids hjson

theorem Crowd.sound_of_early {x : String} (hindex : x ≠ "index")
    (hraces : ∀ early, early <+: moves → ¬ (setup.crowd outside early).Races x)
    {early : List Move} (hearly : early <+: moves) : (setup.crowd outside early).Sound x := by
  induction early using List.reverseRecOn with
  | nil => exact sound_nil setup outside x
  | append_singleton early m ih =>
    have hbefore := (List.prefix_append early [m]).trans hearly
    have hjournal := setup.journal_crowd outside hearly
    rw [Setup.crowd_concat] at hjournal ⊢
    refine (ih hbefore).move m hindex (hraces early hbefore)
      (hjson _ (setup.journal_crowd outside hbefore)) fun d hd unique => ?_
    exact Store.isId_and_new (hd ▸ hjournal) hdistinct hids

/-- However the calls of many clients interleave, a logic that is running is in the list of the
store, unless it is named like the index or was started while it was being deleted. -/
theorem running_logics_are_listed {k : Nat} {r : Supervisor.Run (Outside τ)}
    (hr : (k, r) ∈ (setup.crowd outside moves).state.supervisor.registered) :
    ∃ id, r.id = .text id ∧ (id ≠ "index" →
      (∀ early, early <+: moves → ¬ (setup.crowd outside early).Races id) →
      (setup.crowd outside moves).state.store.Lists id) := by
  obtain ⟨hrun, hup⟩ := Supervisor.State.mem_registered_iff.mp hr
  obtain ⟨id, hid⟩ := (setup.keyed_crowd outside moves).named k r hrun hup
  refine ⟨id, hid, fun hindex hraces => ?_⟩
  have hsound : (setup.crowd outside moves).Sound id :=
    Crowd.sound_of_early hdistinct hids hjson hindex hraces (List.prefix_refl moves)
  have hread := hjson _ (List.prefix_refl _)
  exact hsound.store.lists hread (hsound.kept ⟨k, r, hrun, hup, hid⟩)

end

/-! ### Trials -/

section

variable {τ : Type} {setup : Setup τ} {outside : Outside τ} {moves : List Move}

theorem Setup.exists_arrive {client : Client}
    (hclient : client ∈ (setup.crowd outside moves).clients) : .arrive client.request ∈ moves := by
  induction moves using List.reverseRecOn generalizing client with
  | nil => cases hclient
  | append_singleton moves m ih =>
    rw [crowd_concat] at hclient
    cases m with
    | hear | lose => exact List.mem_append_left _ (ih hclient)
    | arrive request =>
      rcases List.mem_append.mp hclient with hclient | hclient
      · exact List.mem_append_left _ (ih hclient)
      · rw [List.mem_singleton.mp hclient]
        exact List.mem_append_right _ List.mem_cons_self
    | advance k =>
      rw [Crowd.move] at hclient
      split at hclient
      · rename_i request c next hk
        rcases List.mem_or_eq_of_mem_set hclient with hclient | rfl
        · exact List.mem_append_left _ (ih hclient)
        · have hold := ih (List.mem_of_getElem? hk)
          exact List.mem_append_left _ hold
      · exact List.mem_append_left _ (ih hclient)

/-- Where nobody asks to delete a logic, nothing is amiss about starting it. -/
theorem Setup.not_races {id : String}
    (h : ∀ request, .arrive request ∈ moves → ¬ request.Asks (.delete id)) {early : List Move}
    (hearly : early <+: moves) : ¬ (setup.crowd outside early).Races id := by
  rintro ⟨-, client, hclient, hasks, -⟩
  exact h client.request (hearly.subset (exists_arrive hclient)) hasks

theorem Crowd.move_arrive {crowd : Crowd τ} {request : Request} {r : Routine Response}
    (h : request.routine = r) : crowd.move setup (.arrive request) =
      { crowd with clients := crowd.clients ++ [⟨request, r⟩] } := by
  rw [move, h]

end

/-- A service without market data and broker, in which one logic can be created. -/
def trial : Setup Unit where
  source := none
  broker := none
  fresh _ := ("1", ())
  now _ := 0.0
  stamp _ := ""
  obstacle _ := none

def trialOutside : Outside Unit where
  logs := { bound := .ok Log.Center.usualBound }
  outer := ()

def creation : Request where
  verb := "POST"
  address := ⟨"/api/logics", ""⟩
  contentType := "application/json"
  content := "\x7b\"name\": \"Dip\"\x7d"

def breakoutOrder : Value :=
  .object [("stock", .text "KRW"), ("data", CompiledLogic.breakoutLogic)]

/-- A request to start a logic with a stock and graphs of its own. -/
def startOf (id : String) : Request where
  verb := "POST"
  address := ⟨"/api/logics/" ++ id ++ "/start", ""⟩
  contentType := "application/json"
  content := Json.write .compact breakoutOrder

def deletionOf (id : String) : Request where
  verb := "DELETE"
  address := ⟨"/api/logics/" ++ id, ""⟩

def breakoutChars : List Char :=
  (Json.pieces .compact 0 "" breakoutOrder).flatMap String.toList

/-- What is read from the characters of the order. -/
def breakoutBody : Value :=
  (Json.readChecked breakoutChars).toOption.getD .null

theorem body_startOf (id : String) : (startOf id).body = .ok breakoutBody := by
  have hcontent : (startOf id).content.toList = breakoutChars := by
    rw [startOf, Json.write, String.toList_join, breakoutChars]
  have hobject : breakoutChars = '\x7b' :: '"' :: breakoutChars.drop 2 := by decide +kernel
  have hread : Json.readChecked breakoutChars = .ok breakoutBody := by
    have hok : (Json.readChecked breakoutChars).toOption.isSome = true := by decide +kernel
    rw [breakoutBody]
    generalize Json.readChecked breakoutChars = result at hok ⊢
    cases result with
    | error e => cases hok
    | ok v => rfl
  have htrue : breakoutBody.isTruthy = true := by decide +kernel
  exact Request.body_eq_ok (Request.isJson_of_contentType rfl) (hcontent.trans hobject)
    (hcontent ▸ hread) htrue

theorem routine_startOf {id : String} (h : (startOf id).Asks (.start id)) :
    (startOf id).routine = (startLogic id breakoutBody).routine false := by
  rw [Request.routine_of_asks h, Request.handler, body_startOf]
  rfl

def trialMoves : List Move :=
  [.arrive creation, .advance 0, .arrive (startOf "logic-1"), .advance 1, .advance 1, .advance 1]

def created : Store.Call :=
  .create "1" (.text "Dip") (.text "") (.object [])

theorem body_creation : creation.body = .ok (.object [("name", .text "Dip")]) := by
  have hcontent : creation.content.toList =
      ['\x7b', '"', 'n', 'a', 'm', 'e', '"', ':', ' ', '"', 'D', 'i', 'p', '"', '\x7d'] := by
    decide +kernel
  refine Request.body_eq_ok (Request.isJson_of_contentType rfl) hcontent ?_ rfl
  rw [hcontent]
  with_unfolding_all rfl

theorem journal_creation :
    (trial.crowd trialOutside [.arrive creation, .advance 0]).journal = [created] := by
  have hasks : creation.Asks .create := by decide +kernel
  have hroutine : creation.routine = _ := Request.routine_of_asks hasks
  rw [Request.handler, body_creation] at hroutine
  simp only [Setup.crowd, List.foldl_cons, List.foldl_nil, Crowd.move_arrive hroutine]
  rfl

theorem readsBack_created (early : List Store.Call) (hearly : early <+: [created]) :
    ∀ v ∈ Book.documents (Book.afterCalls early), Json.ReadsBack v := by
  have hnone : ∀ v ∈ ([] : List Value), Json.ReadsBack v := by simp
  simp only [List.prefix_cons_iff, List.prefix_nil] at hearly
  rcases hearly with rfl | ⟨_, rfl, rfl⟩
  · exact List.forall_mem_cons.mpr ⟨Json.readsBack_of_eq rfl, hnone⟩
  · have hbook : Book.afterCalls [created] = [Store.drafted] := rfl
    rw [hbook, Book.documents]
    simp only [List.forall_mem_cons, List.map_cons, List.map_nil]
    exact ⟨Json.readsBack_of_eq rfl, Json.readsBack_of_eq rfl, hnone⟩

/-- A logic that is started after it was created is in the list. -/
theorem started_logic_is_listed :
    let crowd := trial.crowd trialOutside trialMoves
    (crowd.journal.filterMap Store.Call.unique?).Nodup ∧
    (∀ unique ∈ crowd.journal.filterMap Store.Call.unique?,
      Store.isId ("logic-" ++ unique) = true) ∧
    (∀ early, early <+: crowd.journal →
      ∀ v ∈ Book.documents (Book.afterCalls early), Json.ReadsBack v) ∧
    crowd.Runs "logic-1" ∧ crowd.state.store.Lists "logic-1" := by
  intro crowd
  have hlogic : (startOf "logic-1").routine = _ := routine_startOf (by decide +kernel)
  have hfacts : crowd.journal.length = 1 ∧ crowd.Runs "logic-1" := by
    simp only [crowd, Setup.crowd, trialMoves, List.foldl_cons, List.foldl_nil,
      Crowd.move_arrive hlogic]
    decide +kernel
  -- Nothing but the creation asks anything of the store, so the journal is known from its start.
  have hjournal : crowd.journal = [created] := by
    have hearly : [.arrive creation, .advance 0] <+: trialMoves := ⟨_, rfl⟩
    have hbefore := trial.journal_crowd trialOutside hearly
    rw [journal_creation] at hbefore
    exact (hbefore.eq_of_length hfacts.1.symm).symm
  have hdistinct : (crowd.journal.filterMap Store.Call.unique?).Nodup := by
    rw [hjournal]
    decide
  have hids : ∀ unique ∈ crowd.journal.filterMap Store.Call.unique?,
      Store.isId ("logic-" ++ unique) = true := by
    rw [hjournal]
    decide
  have hjson : ∀ early, early <+: crowd.journal →
      ∀ v ∈ Book.documents (Book.afterCalls early), Json.ReadsBack v := by
    rw [hjournal]
    exact readsBack_created
  refine ⟨hdistinct, hids, hjson, hfacts.2, ?_⟩
  obtain ⟨k, r, hr, hup, hrid⟩ := hfacts.2
  obtain ⟨id, hid, hlisted⟩ := running_logics_are_listed hdistinct hids hjson
    (Supervisor.State.mem_registered_iff.mpr ⟨hr, hup⟩)
  obtain rfl := Value.text.inj (hid.symm.trans hrid)
  refine hlisted (by decide) fun early hearly => Setup.not_races (fun request hrequest => ?_) hearly
  simp only [trialMoves, List.mem_cons, Move.arrive.injEq, reduceCtorEq, List.not_mem_nil,
    false_or, or_false] at hrequest
  rcases hrequest with rfl | rfl
  · decide +kernel
  · decide +kernel

/-- The logic is deleted after a start has loaded it and before that start runs it. -/
def raceMoves : List Move :=
  [.arrive creation, .advance 0, .arrive (startOf "logic-1"), .advance 1, .advance 1,
    .arrive (deletionOf "logic-1"), .advance 2, .advance 2, .advance 2, .advance 1, .advance 1]

/-- What is started has the id under which the index is kept. -/
def indexMoves : List Move :=
  [.arrive creation, .advance 0, .arrive (startOf "index"), .advance 1, .advance 1, .advance 1,
    .advance 1]

/-- A logic that is deleted while it is started runs on when all requests are answered, and so does
one with the id of the index, and neither is in the list. -/
theorem unlisted_logics_run :
    let raced := trial.crowd trialOutside raceMoves
    let misnamed := trial.crowd trialOutside indexMoves
    (raced.Quiet ∧ raced.Runs "logic-1" ∧ ¬ raced.state.store.Lists "logic-1") ∧
      misnamed.Quiet ∧ misnamed.Runs "index" ∧ ¬ misnamed.state.store.Lists "index" := by
  have hlogic : (startOf "logic-1").routine = _ := routine_startOf (by decide +kernel)
  have hindex : (startOf "index").routine = _ := routine_startOf (by decide +kernel)
  simp only [Setup.crowd, raceMoves, indexMoves, List.foldl_cons, List.foldl_nil,
    Crowd.move_arrive hlogic, Crowd.move_arrive hindex]
  constructor
  · decide +kernel
  · decide +kernel

end Service

end TradingRules
