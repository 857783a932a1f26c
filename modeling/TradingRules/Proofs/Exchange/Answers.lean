import TradingRules.Proofs.Exchange.HighestPrice

/-!
# Answers of the exchange

Whoever uses the client catches some faults and lets others pass. What an answer comes to depends on
its status and on what its text holds: a value, no JSON at all, or JSON that is nested too deeply to
be read, which is a fault whatever the status is.
-/

namespace TradingRules

/-! ### Faults that pass -/

namespace Outcome

variable {α β : Type} (caught : Fault → Bool)

/-- Does an outcome fail with a fault that is not caught? -/
def Escapes (x : Outcome α) : Prop :=
  ∃ e, x = .error e ∧ caught e = false

variable {caught}

@[simp] theorem not_escapes_ok (a : α) : ¬Escapes caught (.ok a : Outcome α) := by
  rintro ⟨e, h, -⟩
  cases h

@[simp] theorem escapes_error_iff (e : Fault) :
    Escapes caught (.error e : Outcome α) ↔ caught e = false := by
  constructor
  · rintro ⟨e', h, hcaught⟩
    cases h
    exact hcaught
  · intro h
    exact ⟨e, rfl, h⟩

theorem escapes_bind (x : Outcome α) (f : α → Outcome β) :
    Escapes caught (x >>= f) ↔ Escapes caught x ∨ ∃ a, x = .ok a ∧ Escapes caught (f a) := by
  cases x with
  | error e => simp
  | ok a => simp

theorem escapes_bind_pure (x : Outcome α) (f : α → β) :
    Escapes caught (x >>= fun a => pure (f a)) ↔ Escapes caught x := by
  simp [escapes_bind]

/-- Going through a list fails at the first item that fails. -/
theorem escapes_mapM (f : α → Outcome β) (l : List α) :
    Escapes caught (l.mapM f) ↔ ∃ before a after, l = before ++ a :: after ∧
      (∀ b ∈ before, ∃ c, f b = .ok c) ∧ Escapes caught (f a) := by
  induction l with
  | nil => simp
  | cons a l ih =>
    rw [List.mapM_cons, escapes_bind]
    constructor
    · rintro (h | ⟨c, hc, h⟩)
      · exact ⟨[], a, l, rfl, by simp, h⟩
      · rw [escapes_bind_pure, ih] at h
        obtain ⟨before, a', after, rfl, hbefore, h⟩ := h
        refine ⟨a :: before, a', after, rfl, ?_, h⟩
        rintro b (_ | ⟨_, hb⟩)
        · exact ⟨c, hc⟩
        · exact hbefore b hb
    · rintro ⟨before, a', after, hl, hbefore, h⟩
      cases before with
      | nil =>
        obtain ⟨rfl, rfl⟩ := List.cons.inj hl
        exact .inl h
      | cons b before =>
        obtain ⟨rfl, rfl⟩ := List.cons.inj hl
        obtain ⟨c, hc⟩ := hbefore a List.mem_cons_self
        refine .inr ⟨c, hc, ?_⟩
        rw [escapes_bind_pure, ih]
        exact ⟨before, a', after, rfl, fun b hb => hbefore b (List.mem_cons_of_mem a hb), h⟩

theorem exists_ok_of_mapM {f : α → Outcome β} {l : List α} {out : List β}
    (h : l.mapM f = .ok out) {a : α} (ha : a ∈ l) : ∃ b, f a = .ok b := by
  induction l generalizing out with
  | nil => cases ha
  | cons first l ih =>
    rw [List.mapM_cons] at h
    obtain ⟨b, hfirst, h⟩ := bind_eq_ok.mp h
    obtain ⟨rest, hrest, -⟩ := bind_eq_ok.mp h
    rcases List.mem_cons.mp ha with rfl | ha
    · exact ⟨b, hfirst⟩
    · exact ih hrest ha

end Outcome

namespace Exchange

/-! ### What an answer holds -/

/-- A response whose status is none of those that stand for a fault. -/
def Response.IsAccepted (r : Response) : Prop :=
  ∃ code : Int, r.status = .int code ∧ ¬(400 ≤ code ∧ code < 600)

/-- There is no response, or one with a status code. -/
def IsHttp (answer : Except String Response) : Prop :=
  ∀ response, answer = .ok response → ∃ code : Int, response.status = .int code

/-- A link that brings responses with status codes. -/
def Link.SpeaksHttp {σ : Type} (link : Link σ) : Prop :=
  ∀ r s, IsHttp (link.send r s).1

/-- A link that answers every request with the same text, and accepts it. -/
def Link.answering (text : String) : Link Unit where
  send _ s := (.ok ⟨.int 200, text⟩, s)
  nonce s := ("", s)

theorem Link.answering_speaksHttp (text : String) : (answering text).SpeaksHttp := by
  rintro r s response ⟨⟩
  exact ⟨200, rfl⟩

/-- The response is accepted and holds a value. -/
def Holds (answer : Except String Response) (body : Value) : Prop :=
  ∃ response, answer = .ok response ∧ response.IsAccepted ∧ Json.read response.text = .ok body

/-- The response is accepted and is no JSON. -/
def IsGarbled (answer : Except String Response) : Prop :=
  ∃ response e, answer = .ok response ∧ response.IsAccepted ∧
    Json.read response.text = .error e ∧ e.isBadValue = true

/-- The response is nested too deeply to be read. -/
def IsTooDeep (answer : Except String Response) : Prop :=
  ∃ response container, answer = .ok response ∧
    Json.read response.text = .error (.tooDeep container)

theorem isFailure_int (code : Int) :
    isFailure (.int code) = .ok (decide (400 ≤ code ∧ code < 600)) := by
  have hcompare : ∀ (c : Value.Comparison) (a b : Int),
      Value.compareBy c (.int a) (.int b) = .ok (c.holds (compare a b)) := by
    intro c a b
    simp only [Value.compareBy, Value.numeric?, Value.Numeric.compare]
  have hleast : Value.Comparison.lessEqual.holds (compare 400 code) = decide (400 ≤ code) :=
    Bool.eq_iff_iff.mpr (by simp [Value.Comparison.holds, compare_gt_iff_gt])
  have hless : Value.Comparison.less.holds (compare code 600) = decide (code < 600) :=
    Bool.eq_iff_iff.mpr (by simp [Value.Comparison.holds, compare_lt_iff_lt])
  rw [isFailure, hcompare, hcompare, hleast, hless, Outcome.ok_bind, Bool.decide_and]
  cases decide (400 ≤ code) <;> rfl

/-! ### What is made of an answer -/

variable {answer : Except String Response}

theorem contents_of_accepted {r : Response} (h : r.IsAccepted) :
    Client.contents r = (Json.read r.text).mapError Fault.badJson := by
  obtain ⟨code, hstatus, hcode⟩ := h
  have hfailure : isFailure r.status = .ok false := by
    rw [hstatus, isFailure_int, decide_eq_false hcode]
  rw [Client.contents, hfailure]
  rfl

/-- A response that stands for a fault is one, unless its text cannot be read for its depth. -/
theorem contents_of_failed {r : Response} {code : Int} (hstatus : r.status = .int code)
    (hcode : 400 ≤ code ∧ code < 600) :
    ((∀ container, Json.read r.text ≠ .error (.tooDeep container)) ∧
        ∃ message status payload, Client.contents r = .error (.exchange message status payload)) ∨
      ∃ container, Json.read r.text = .error (.tooDeep container) ∧
        Client.contents r = .error (.badJson (.tooDeep container)) := by
  have hfailure : isFailure r.status = .ok true := by
    rw [hstatus, isFailure_int, decide_eq_true hcode]
  rw [Client.contents, hfailure]
  cases hread : Json.read r.text with
  | ok payload => exact .inl ⟨nofun, _, _, _, rfl⟩
  | error e =>
    cases e with
    | tooDeep container => exact .inr ⟨container, rfl, rfl⟩
    | malformed | tooLong => exact .inl ⟨nofun, _, _, _, rfl⟩

/-- The ways in which an answer is taken: as the value that it holds, as a fault of the exchange, as
a text that is no JSON, or as one that is nested too deeply. -/
inductive Taken (answer : Except String Response) : Outcome Value → Prop
  | value {body : Value} (h : Holds answer body) : Taken answer (.ok body)
  | refusal {message : String} {status payload : Value} (hholds : ∀ body, ¬Holds answer body)
      (hgarbled : ¬IsGarbled answer) (hdeep : ¬IsTooDeep answer) :
      Taken answer (.error (.exchange message status payload))
  | garbled {e : JsonError} (h : IsGarbled answer) (hbad : e.isBadValue = true) :
      Taken answer (.error (.badJson e))
  | tooDeep {container : String} (h : IsTooDeep answer) :
      Taken answer (.error (.badJson (.tooDeep container)))

theorem taken_received (h : IsHttp answer) : Taken answer (Client.received answer) := by
  cases answer with
  | error reason =>
    apply Taken.refusal
    · rintro body ⟨response, hresponse, -⟩
      cases hresponse
    · rintro ⟨response, e, hresponse, -⟩
      cases hresponse
    · rintro ⟨response, container, hresponse, -⟩
      cases hresponse
  | ok response =>
    show Taken _ (Client.contents response)
    obtain ⟨code, hstatus⟩ := h response rfl
    by_cases hcode : 400 ≤ code ∧ code < 600
    · have hrefused : ¬response.IsAccepted := by
        rintro ⟨code', hstatus', hcode'⟩
        rw [hstatus] at hstatus'
        cases hstatus'
        exact hcode' hcode
      rcases contents_of_failed hstatus hcode with
        ⟨hshallow, message, status, payload, hcontents⟩ | ⟨container, hread, hcontents⟩
      · rw [hcontents]
        apply Taken.refusal
        · rintro body ⟨_, ⟨⟩, haccepted, -⟩
          exact hrefused haccepted
        · rintro ⟨_, e, ⟨⟩, haccepted, -⟩
          exact hrefused haccepted
        · rintro ⟨_, container, ⟨⟩, hread⟩
          exact hshallow container hread
      · rw [hcontents]
        exact .tooDeep ⟨response, container, rfl, hread⟩
    · have haccepted : response.IsAccepted := ⟨code, hstatus, hcode⟩
      rw [contents_of_accepted haccepted]
      cases hread : Json.read response.text with
      | ok body => exact .value ⟨response, rfl, haccepted, hread⟩
      | error e =>
        cases hbad : e.isBadValue with
        | true => exact .garbled ⟨response, e, rfl, haccepted, hread, hbad⟩ hbad
        | false =>
          cases e with
          | tooDeep container => exact .tooDeep ⟨response, container, rfl, hread⟩
          | malformed | tooLong => cases hbad

theorem Holds.unique {body body' : Value} (h : Holds answer body) (h' : Holds answer body') :
    body = body' := by
  obtain ⟨response, rfl, -, hread⟩ := h
  obtain ⟨_, ⟨⟩, -, hread'⟩ := h'
  exact Except.ok.inj (hread.symm.trans hread')

theorem Holds.not_isGarbled {body : Value} (h : Holds answer body) : ¬IsGarbled answer := by
  obtain ⟨response, rfl, -, hread⟩ := h
  rintro ⟨_, e, ⟨⟩, -, hread', -⟩
  cases hread.symm.trans hread'

theorem Holds.not_isTooDeep {body : Value} (h : Holds answer body) : ¬IsTooDeep answer := by
  obtain ⟨response, rfl, -, hread⟩ := h
  rintro ⟨_, container, ⟨⟩, hread'⟩
  cases hread.symm.trans hread'

theorem IsGarbled.not_isTooDeep (h : IsGarbled answer) : ¬IsTooDeep answer := by
  obtain ⟨response, e, rfl, -, hread, hbad⟩ := h
  rintro ⟨_, container, ⟨⟩, hread'⟩
  cases hread.symm.trans hread'
  cases hbad

theorem received_eq_ok_iff (h : IsHttp answer) (body : Value) :
    Client.received answer = .ok body ↔ Holds answer body := by
  have htaken := taken_received h
  generalize Client.received answer = outcome at htaken ⊢
  cases htaken with
  | value hvalue =>
    constructor
    · rintro ⟨⟩
      exact hvalue
    · intro hbody
      rw [hvalue.unique hbody]
  | refusal hholds => exact ⟨nofun, fun hbody => absurd hbody (hholds body)⟩
  | garbled hgarbled => exact ⟨nofun, fun hbody => absurd hgarbled hbody.not_isGarbled⟩
  | tooDeep hdeep => exact ⟨nofun, fun hbody => absurd hdeep hbody.not_isTooDeep⟩

/-- Faults of the exchange are caught, and texts that are no JSON perhaps. -/
structure Catches (caught : Fault → Bool) (texts : Bool) : Prop where
  refusal (message : String) (status payload : Value) :
    caught (.exchange message status payload) = true
  garbled {e : JsonError} (h : e.isBadValue = true) : caught (.badJson e) = texts
  tooDeep (container : String) : caught (.badJson (.tooDeep container)) = false

theorem escapes_received {caught : Fault → Bool} {texts : Bool} (hcaught : Catches caught texts)
    (h : IsHttp answer) : Outcome.Escapes caught (Client.received answer) ↔
      IsTooDeep answer ∨ texts = false ∧ IsGarbled answer := by
  have htaken := taken_received h
  generalize Client.received answer = outcome at htaken ⊢
  cases htaken with
  | value hvalue => simp [hvalue.not_isGarbled, hvalue.not_isTooDeep]
  | refusal _ hgarbled hdeep => simp [hcaught.refusal, hgarbled, hdeep]
  | garbled hgarbled hbad => simp [hcaught.garbled hbad, hgarbled, hgarbled.not_isTooDeep]
  | tooDeep hdeep => simp [hcaught.tooDeep, hdeep]

end Exchange

end TradingRules
