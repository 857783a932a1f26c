import TradingRules.Proofs.Value.Order
import TradingRules.Worker.Traffic

/-!
# One request among others

What becomes of a request can be told from what happens after it was begun, as if it were alone. The
first message that carries its number, the closing, or its own thread takes it out of the table, and
who does so decides what it ends with, unless its thread has given up waiting by then.
-/

namespace TradingRules.Worker

/-! ### Numbers that messages carry -/

/-- Does a message carry the number of a request? -/
def carries (id : Nat) (message : Value) : Bool :=
  match message.fields? with
  | some f => Value.int id == Fields.get f "request_id"
  | none => false

def answerOf (message : Value) : Answer :=
  let f := message.fields?.getD []
  ⟨(Fields.get f "success").isTruthy, Fields.get f "result", Fields.get f "error"⟩

variable {id : Nat} {message : Value}

theorem exists_fields_of_carries (h : carries id message = true) :
    ∃ f, message = .object f ∧ (Value.int id == Fields.get f "request_id") = true := by
  cases message with
  | object f => exact ⟨f, rfl, h⟩
  | _ => cases h

/-- A message carries one number at most. -/
theorem carries_inj {m n : Nat} (hm : carries m message = true) (hn : carries n message = true) :
    m = n := by
  obtain ⟨f, rfl, hm⟩ := exists_fields_of_carries hm
  exact_mod_cast Value.int_inj_of_beq hm hn

namespace Proxy

variable {p : Proxy}

/-- The request whose number a message carries is answered, if it waits. -/
theorem resolve_of_carries (hid : id ∈ p.pending) (h : carries id message = true) :
    p.resolve message = (.ok (some (id, answerOf message)), p.forget id) := by
  obtain ⟨f, rfl, hkey⟩ := exists_fields_of_carries h
  have hnonempty : p.pending.isEmpty = false :=
    List.isEmpty_eq_false_iff.mpr (List.ne_nil_of_mem hid)
  have hfound : p.pending.find? (fun n : Nat => Value.int n == Fields.get f "request_id") =
      some id := by
    have hsome : (p.pending.find? fun n : Nat => Value.int n == Fields.get f "request_id").isSome :=
      List.find?_isSome.mpr ⟨id, hid, hkey⟩
    obtain ⟨n, hn⟩ := Option.isSome_iff_exists.mp hsome
    have hcarried := List.find?_some hn
    rw [hn, carries_inj (show carries n (.object f) = true from hcarried) h]
  simp [resolve, Value.asFields, hnonempty, Value.isKey_of_int_beq hkey, hfound, answerOf,
    Value.fields?]

/-- A message that carries the number of no waiting request changes nothing and answers nothing. -/
theorem resolve_of_stray (h : ∀ id ∈ p.pending, carries id message = false) :
    (p.resolve message).2 = p ∧ ∀ answered, (p.resolve message).1 ≠ .ok (some answered) := by
  cases message with
  | object f =>
    have hnone : p.pending.find? (fun n : Nat => Value.int n == Fields.get f "request_id") = none :=
      List.find?_eq_none.mpr fun n hn => ne_true_of_eq_false (h n hn)
    simp only [resolve, Value.asFields, hnone]
    split
    · simp
    · split <;> simp
  | _ => simp [resolve, Value.asFields]

/-- The request that a message answers is the one whose number it carries. -/
theorem carries_of_resolve {answer : Answer}
    (h : (p.resolve message).1 = .ok (some (id, answer))) : carries id message = true := by
  by_cases hcarried : ∃ n ∈ p.pending, carries n message = true
  · obtain ⟨n, hn, hcarries⟩ := hcarried
    rw [resolve_of_carries hn hcarries] at h
    cases h
    exact hcarries
  · exact absurd h ((resolve_of_stray (by simpa using hcarried)).2 _)

end Proxy

/-! ### One request -/

namespace Traffic.Occurrence

def isBegin : Occurrence → Bool
  | .begin _ _ => true
  | _ => false

def isClose : Occurrence → Bool
  | .close _ => true
  | _ => false

def request? : Occurrence → Option (Value × Value)
  | .begin method params => some (method, params)
  | _ => none

/-- What an event says about a request that waits: it is handed an answer, or it is given up. -/
def ruling? (id : Nat) : Occurrence → Option (Option Answer)
  | .resolve message => if carries id message then some (some (answerOf message)) else none
  | .close reason => some (some ⟨false, .null, reason⟩)
  | .act n .purge => if n = id then some none else none
  | _ => none

/-- Only its own thread gives up a request. -/
theorem eq_purge_of_ruling? {e : Occurrence} (h : e.ruling? id = some none) :
    e = .act id .purge := by
  unfold ruling? at h
  split at h
  · split at h <;> cases h
  · cases h
  · split at h
    · subst id
      rfl
    · cases h
  · cases h

end Traffic.Occurrence

open Traffic (Occurrence)

namespace Inquiry

variable {q : Inquiry} {e : Occurrence} {events : List Occurrence}

/-- How a request left the table: with an answer, without one, or not yet. -/
def ruling (q : Inquiry) : Option (Option Answer) :=
  match q.answer with
  | some answer => some (some answer)
  | none => if q.outcome.isSome then some none else none

/-- What a request makes of an event, as if it were alone. -/
def hear (q : Inquiry) (e : Occurrence) : Inquiry :=
  match e with
  | .act id act => if q.id = id then q.act act else q
  | e => match q.ruling, e.ruling? q.id with
    | none, some (some answer) => q.handed answer
    | _, _ => q

/-- What can be said of a request from what happened since it was begun. -/
structure Follows (q : Inquiry) (events : List Occurrence) : Prop where
  ruling : q.ruling = events.findSome? (Occurrence.ruling? q.id)
  signalled : q.signalled = true → q.answer.isSome = true
  purged : .act q.id .purge ∈ events ↔ q.expired = true ∧ q.outcome.isSome = true
  outcome : ∀ o ∈ q.outcome, q.expired = true ∧ o = q.timeout ∨
    q.expired = false ∧ q.signalled = true ∧
      ∃ answer, q.answer = some answer ∧ o = answer.outcome q.method

/-- A request keeps its number, its method and its parameters. -/
theorem same_act (act : Act) :
    (q.act act).id = q.id ∧ (q.act act).method = q.method ∧ (q.act act).params = q.params := by
  cases act <;> exact ⟨rfl, rfl, rfl⟩

theorem same_hear (q : Inquiry) (e : Occurrence) :
    (q.hear e).id = q.id ∧ (q.hear e).method = q.method ∧ (q.hear e).params = q.params := by
  unfold hear
  split
  · split
    · exact same_act _
    · exact ⟨rfl, rfl, rfl⟩
  · split <;> exact ⟨rfl, rfl, rfl⟩

@[simp] theorem id_act (act : Act) : (q.act act).id = q.id := (same_act act).1

@[simp] theorem id_hear : (q.hear e).id = q.id := (same_hear q e).1

@[simp] theorem method_hear : (q.hear e).method = q.method := (same_hear q e).2.1

@[simp] theorem params_hear : (q.hear e).params = q.params := (same_hear q e).2.2

theorem ruling_eq_none : q.ruling = none ↔ q.answer = none ∧ q.outcome = none := by
  unfold ruling
  cases q.answer <;> cases q.outcome <;> simp

theorem hear_of_not_act (hact : ∀ act, e ≠ .act q.id act) : q.hear e =
    match q.ruling, e.ruling? q.id with
    | none, some (some answer) => q.handed answer
    | _, _ => q := by
  cases e with
  | begin | resolve | close => rfl
  | act id act =>
    have hid : q.id ≠ id := fun heq => hact act (heq ▸ rfl)
    have hnone : (Occurrence.act id act).ruling? q.id = none := by
      cases act <;> simp [Occurrence.ruling?, hid.symm]
    rw [hear, if_neg hid, hnone]
    cases q.ruling <;> rfl

/-- A request that has ended ends with nothing else. -/
theorem outcome_hear (hcan : ∀ act, e = .act q.id act → q.can act = true)
    (hended : q.outcome.isSome = true) : (q.hear e).outcome = q.outcome := by
  unfold hear
  split
  · rename_i act
    split
    · rename_i hid
      have hact := hcan act (by rw [hid])
      cases act with
      | post | signal | expire => rfl
      | purge | wake =>
        simp [can, Option.isNone_iff_eq_none, Option.isSome_iff_ne_none] at hact hended
        simp_all
    · rfl
  · split <;> rfl

theorem follows_fresh (id : Nat) (method params : Value) :
    Follows { id, method, params } [] where
  ruling := rfl
  signalled h := nomatch h
  purged := by simp
  outcome o ho := nomatch ho

namespace Follows

variable (h : q.Follows events)

include h

theorem ruling_concat (e : Occurrence) :
    (events ++ [e]).findSome? (Occurrence.ruling? q.id) = q.ruling.or (e.ruling? q.id) := by
  rw [List.findSome?_append, ← h.ruling, List.findSome?_singleton]

/-- An event that is no act of the request hands it an answer at most. -/
theorem heard (hact : ∀ act, e ≠ .act q.id act) : (q.hear e).Follows (events ++ [e]) := by
  have hruling := h.ruling_concat e
  have hpurged : .act q.id .purge ∈ events ++ [e] ↔ q.expired = true ∧ q.outcome.isSome = true := by
    rw [List.mem_append, List.mem_singleton, h.purged, or_iff_left (hact .purge).symm]
  have hkept : e.ruling? q.id = none ∨ q.ruling ≠ none → q.Follows (events ++ [e]) := by
    intro hcase
    refine ⟨?_, h.signalled, hpurged, h.outcome⟩
    rw [hruling]
    rcases hcase with hnone | hsome
    · rw [hnone, Option.or_none]
    · obtain ⟨ruled, hruled⟩ := Option.ne_none_iff_exists'.mp hsome
      rw [hruled, Option.some_or]
  rw [hear_of_not_act hact]
  -- A request that is in the table is handed what the event says about it, and one that has left
  -- the table is beyond its reach.
  split
  · rename_i answer hopen hrules
    obtain ⟨hunanswered, hended⟩ := ruling_eq_none.mp hopen
    refine ⟨?_, fun _ => rfl, hpurged, fun o ho => ?_⟩
    · exact (hruling.trans (by rw [hopen, hrules]; rfl)).symm
    · cases hended.symm.trans ho
  · rename_i hother
    refine hkept ?_
    by_contra hneither
    rw [not_or, not_not] at hneither
    obtain ⟨ruled, hruled⟩ := Option.ne_none_iff_exists'.mp hneither.1
    cases ruled with
    | none => exact hact .purge (Occurrence.eq_purge_of_ruling? hruled)
    | some answer => exact hother answer hneither.2 hruled

theorem act {act : Act} (hcan : q.can act = true) :
    (q.act act).Follows (events ++ [.act q.id act]) := by
  have hruling := h.ruling_concat (.act q.id act)
  have hpurged := h.purged
  have hsignalled := h.signalled
  have houtcome := h.outcome
  cases act with
  | post =>
    refine ⟨?_, hsignalled, ?_, houtcome⟩
    · exact (hruling.trans Option.or_none).symm
    · simpa [Inquiry.act] using hpurged
  | signal =>
    simp only [can, Bool.and_eq_true] at hcan
    refine ⟨?_, fun _ => hcan.1, ?_, fun o ho => ?_⟩
    · exact (hruling.trans Option.or_none).symm
    · simpa [Inquiry.act] using hpurged
    · exact (houtcome o ho).imp_right fun ⟨hwaited, _, hanswer⟩ => ⟨hwaited, rfl, hanswer⟩
  | expire =>
    simp only [can, Bool.and_eq_true, Bool.not_eq_true'] at hcan
    -- A thread that has not expired yet has ended only if it was signalled.
    have hopen : q.outcome = none := by
      refine Option.eq_none_iff_forall_ne_some.mpr fun o ho => ?_
      rcases houtcome o ho with ⟨hexpired, -⟩ | ⟨-, hsignalled, -⟩
      · exact Bool.false_ne_true (hcan.2.symm.trans hexpired)
      · exact Bool.false_ne_true (hcan.1.2.symm.trans hsignalled)
    refine ⟨?_, hsignalled, ?_, fun o ho => ?_⟩
    · exact (hruling.trans Option.or_none).symm
    · simpa [Inquiry.act, hopen] using hpurged
    · cases hopen.symm.trans ho
  | purge =>
    simp only [can, Bool.and_eq_true] at hcan
    refine ⟨?_, hsignalled, ?_, fun o ho => .inl ⟨hcan.1, (Option.some.inj ho).symm⟩⟩
    · rw [id_act, hruling]
      have hnone : q.outcome.isSome = false := by simpa using hcan.2
      cases hanswer : q.answer <;>
        simp [Inquiry.ruling, Inquiry.act, hanswer, hnone, Occurrence.ruling?]
    · simp [Inquiry.act, hcan.1]
  | wake =>
    simp only [can, Bool.and_eq_true, Bool.not_eq_true'] at hcan
    obtain ⟨answer, hanswer⟩ := Option.isSome_iff_exists.mp (hsignalled hcan.1.1.2)
    refine ⟨?_, hsignalled, ?_, fun o ho => .inr ⟨hcan.1.2, hcan.1.1.2, answer, hanswer, ?_⟩⟩
    · rw [id_act, hruling]
      simp [Inquiry.ruling, Inquiry.act, hanswer, Occurrence.ruling?]
    · simpa [Inquiry.act, hcan.1.2] using hpurged
    · simpa [Inquiry.act, hanswer] using ho.symm

/-- Each event leaves a request as it can be told from the events. -/
theorem hear (hcan : ∀ act, e = .act q.id act → q.can act = true) :
    (q.hear e).Follows (events ++ [e]) := by
  by_cases hact : ∃ act, e = .act q.id act
  · obtain ⟨act, rfl⟩ := hact
    rw [Inquiry.hear, if_pos rfl]
    exact h.act (hcan act rfl)
  · exact h.heard (not_exists.mp hact)

end Follows

end Inquiry

end TradingRules.Worker
