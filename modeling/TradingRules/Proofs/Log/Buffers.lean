import TradingRules.Log.Center
import TradingRules.Proofs.Lists
import TradingRules.Proofs.Value.Keys

/-!
# Buffers as ends of histories

Whatever is logged and cleared under any ids, the buffer of an id holds the end of the history of
that id: of the entries that were logged under it since it was cleared last, the latest ones.
-/

namespace TradingRules.Log

/-! ### Calls -/

/-- A call that changes the log centre. -/
inductive Call where
  | log (time : String) (id title message : Value)
  /-- A call of a sink for the id. -/
  | sink (time : String) (id title message : Value)
  | clear (id : Value)

namespace Call

def id : Call → Value
  | log _ id _ _ | sink _ id _ _ | clear id => id

/-- The entry that a call logs, unless it clears. -/
def entry? : Call → Option Entry
  | log time _ title message | sink time _ title message => some ⟨time, title, message⟩
  | clear _ => none

def entryUnder? (asked : Value) (call : Call) : Option Entry :=
  if call.id.isSame asked then call.entry? else none

def clears (asked : Value) (call : Call) : Bool :=
  call.entry?.isNone && call.id.isSame asked

end Call

/-- The entries that calls logged under an id since they cleared it last. -/
def logged (asked : Value) (calls : List Call) : List Entry :=
  (calls.rtakeWhile fun call => !call.clears asked).filterMap (·.entryUnder? asked)

theorem logged_concat (asked : Value) (calls : List Call) (call : Call) :
    logged asked (calls ++ [call]) =
      if call.clears asked then [] else logged asked calls ++ (call.entryUnder? asked).toList := by
  rw [logged, List.rtakeWhile_concat]
  cases hclears : call.clears asked with
  | true => simp
  | false => cases hentry : call.entryUnder? asked <;> simp [logged, hentry]

/-- A call on another id is not part of the history. -/
theorem logged_append_cons_of_other {asked : Value} {call : Call}
    (h : call.id.isSame asked = false) (calls rest : List Call) :
    logged asked (calls ++ call :: rest) = logged asked (calls ++ rest) := by
  induction rest using List.reverseRecOn with
  | nil =>
    rw [logged_concat, Call.clears, Call.entryUnder?, h]
    simp
  | append_singleton rest last ih =>
    rw [← List.cons_append, ← List.append_assoc, ← List.append_assoc, logged_concat, logged_concat,
      ih]

namespace Center

variable {c c' : Center} {id asked : Value} {bound : Nat}

def perform (c : Center) : Call → Outcome Unit × Center
  | .log time id title message => c.log time id title message
  | .sink time id title message => sinkFor id time title message c
  | .clear id => c.clear id

/-- The calls that are carried out, which are those that do not fail, and the log centre after all
calls. -/
def performAll (c : Center) : List Call → List Call × Center
  | [] => ([], c)
  | call :: rest =>
    match c.perform call with
    | (.ok _, next) => (call :: (next.performAll rest).1, (next.performAll rest).2)
    | (.error _, next) => next.performAll rest

/-! ### One call -/

/-- The buffers of an id are none of those of another one. -/
theorem not_isSame_of_other (hid : id.isKey = true) (hasked : asked.isKey = true)
    (h : ¬id.isSame asked = true) {v : Value} (hv : v.isSame asked = true) :
    v.isSame id = false := by
  rw [Bool.eq_false_iff]
  intro hvid
  exact h (Value.isSame_of_isSame hid hasked hvid hv)

/-- A buffer with other entries, if it is that of an id. -/
def refilled (id : Value) (entries : List Entry) (b : Value × List Entry) : Value × List Entry :=
  if b.1.isSame id then (b.1, entries) else b

theorem find?_refilled (id : Value) (entries : List Entry) (buffers : List (Value × List Entry)) :
    (buffers.map (refilled id entries)).find? (fun b => b.1.isSame asked) =
      (buffers.find? fun b => b.1.isSame asked).map (refilled id entries) := by
  have hkey : ∀ b, (refilled id entries b).1 = b.1 := by
    intro b
    unfold refilled
    split_ifs <;> rfl
  rw [List.find?_map]
  simp only [Function.comp_def, hkey]

theorem append_eq (c : Center) (bound : Nat) (id : Value) (e : Entry) : c.append bound id e =
    { c with
      buffers := if (c.buffers.find? fun b => b.1.isSame id).isSome
        then c.buffers.map (refilled id (keepLast bound (c.entries id ++ [e])))
        else c.buffers ++ [(id, keepLast bound (c.entries id ++ [e]))] } := by
  rw [List.isSome_find?]
  rfl

theorem entries_append (bound : Nat) (e : Entry) (hid : id.isKey = true)
    (hasked : asked.isKey = true) :
    (c.append bound id e).entries asked =
      if id.isSame asked then keepLast bound (c.entries asked ++ [e]) else c.entries asked := by
  by_cases hsame : id.isSame asked = true
  · have hcongr : ∀ v : Value, v.isSame id = v.isSame asked := fun v =>
      Value.isSame_congr_right hid hasked hsame
    have hentries : c.entries id = c.entries asked := by simp only [entries, hcongr]
    have hmet : (fun b : Value × List Entry => b.1.isSame id) = fun b => b.1.isSame asked :=
      funext fun b => hcongr b.1
    -- An entry under the same id goes to the buffer that is asked for, or opens it.
    rw [if_pos hsame, append_eq, hentries]
    generalize keepLast bound (c.entries asked ++ [e]) = extended
    unfold entries
    dsimp only
    rw [hmet]
    cases hfind : c.buffers.find? fun b => b.1.isSame asked with
    | none => simp [hfind, hsame]
    | some b =>
      have hb : b.1.isSame asked = true := by simpa using List.find?_some hfind
      rw [if_pos Option.isSome_some, find?_refilled, hfind]
      simp [refilled, hcongr, hb]
  · -- One under another id changes a buffer that is passed over, or opens one behind all others.
    rw [if_neg hsame, append_eq]
    generalize keepLast bound (c.entries id ++ [e]) = extended
    unfold entries
    dsimp only
    split_ifs
    · rw [find?_refilled]
      cases hfind : c.buffers.find? fun b => b.1.isSame asked with
      | none => rfl
      | some b =>
        have hb : b.1.isSame asked = true := by simpa using List.find?_some hfind
        have hother := not_isSame_of_other hid hasked hsame hb
        simp [refilled, hother]
    · simp [hsame]

/-- Once an id that is a key is cleared, no buffer of it is left. -/
theorem clear_eq (c : Center) (hid : id.isKey = true) : c.clear id =
    (.ok (), { c with buffers := c.buffers.filter fun b => !b.1.isSame id }) := by
  obtain ⟨bound, buffers⟩ := c
  cases buffers <;> simp [clear, hid]

theorem entries_clear (hid : id.isKey = true) (hasked : asked.isKey = true) :
    (c.clear id).2.entries asked = if id.isSame asked then [] else c.entries asked := by
  rw [clear_eq c hid, entries]
  split_ifs with hsame
  · have hnone : (c.buffers.filter fun b => !b.1.isSame id).find? (·.1.isSame asked) = none := by
      rw [List.find?_eq_none]
      intro b hb
      have hother := (List.mem_filter.mp hb).2
      rw [Value.isSame_congr_right hid hasked hsame] at hother
      simpa using hother
    rw [hnone]
    rfl
  · have hkept : (c.buffers.filter fun b => !b.1.isSame id).find? (·.1.isSame asked) =
        c.buffers.find? (·.1.isSame asked) := by
      rw [List.find?_filter]
      congr 1
      funext b
      cases hb : b.1.isSame asked with
      | false => simp
      | true => simp [not_isSame_of_other hid hasked hsame hb]
    rw [hkept, entries]

/-- What a call can do: nothing when it fails, which is for an id that is no key or for want of a
bound, or put an entry into the buffer of its id, or remove that buffer, if there are any. -/
inductive Effect (c : Center) (call : Call) : Outcome Unit × Center → Prop
  | failed {e : Fault} (h : call.id.isKey = false ∨ c.bound = .error e ∧ call.entry? ≠ none) :
      Effect c call (.error e, c)
  | logged {bound : Nat} {e : Entry} (hid : call.id.isKey = true) (hbound : c.bound = .ok bound)
      (he : call.entry? = some e) : Effect c call (.ok (), c.append bound call.id e)
  | cleared (hid : call.id.isKey = true) (he : call.entry? = none) :
      Effect c call (.ok (), (c.clear call.id).2)
  | idle (hempty : c.buffers = []) (he : call.entry? = none) : Effect c call (.ok (), c)

theorem effect_log (c : Center) (call : Call) {time : String} {title message : Value}
    (he : call.entry? = some ⟨time, title, message⟩) :
    Effect c call (c.log time call.id title message) := by
  unfold log
  split_ifs with hid
  · exact .failed (.inl (by simpa using hid))
  · cases hbound : c.bound with
    | error e => exact .failed (.inr ⟨hbound, by simp [he]⟩)
    | ok bound => exact .logged (by simpa using hid) hbound he

theorem effect_clear (c : Center) (call : Call) (he : call.entry? = none) :
    Effect c call (c.clear call.id) := by
  by_cases hid : call.id.isKey = true
  · have hcleared : Effect c call (.ok (), (c.clear call.id).2) := .cleared hid he
    rwa [clear_eq c hid] at hcleared ⊢
  · rw [Bool.not_eq_true] at hid
    simp only [clear, hid, Bool.not_false, if_true]
    split_ifs with hempty
    · exact .idle (List.isEmpty_iff.mp hempty) he
    · exact .failed (.inl hid)

theorem effect_perform (c : Center) (call : Call) : Effect c call (c.perform call) := by
  cases call with
  | log time id title message => exact c.effect_log (.log time id title message) rfl
  | sink time id title message => exact c.effect_log (.sink time id title message) rfl
  | clear id => exact c.effect_clear (.clear id) rfl

/-- Every buffer holds the end of the history of its id. -/
def Holds (bound : Nat) (calls : List Call) (c : Center) : Prop :=
  ∀ asked : Value, asked.isKey = true → c.entries asked = (Log.logged asked calls).rtake bound

namespace Effect

variable {call : Call} {result : Outcome Unit × Center}

theorem bound_eq (h : Effect c call result) : result.2.bound = c.bound := by
  cases h with
  | failed | idle => rfl
  | logged => rfl
  | cleared hid =>
    unfold clear
    split_ifs <;> rfl

theorem succeeds_iff (h : Effect c call result) (hid : call.id.isKey = true) :
    result.1 = .ok () ↔ (∃ n, c.bound = .ok n) ∨ call.entry? = none := by
  cases h with
  | failed h =>
    obtain hkey | ⟨hbound, he⟩ := h
    · rw [hid] at hkey
      cases hkey
    · simp [hbound, he]
  | logged _ hbound => simp [hbound]
  | cleared _ he | idle _ he => simp [he]

/-- A call leaves the buffers of all ids but its own. -/
theorem entries_of_other (h : Effect c call result) (hasked : asked.isKey = true)
    (hother : call.id.isSame asked = false) : result.2.entries asked = c.entries asked := by
  cases h with
  | failed | idle => rfl
  | logged hid => rw [entries_append _ _ hid hasked, if_neg (by simp [hother])]
  | cleared hid => rw [entries_clear hid hasked, if_neg (by simp [hother])]

theorem holds {calls : List Call} (h : Effect c call (.ok (), c'))
    (hbound : ∀ n, c.bound = .ok n → n = bound) (hc : c.Holds bound calls) :
    c'.Holds bound (calls ++ [call]) := by
  intro asked hasked
  rw [logged_concat, Call.clears, Call.entryUnder?]
  have hheld := hc asked hasked
  cases h with
  | @logged n e hid hn he =>
    obtain rfl := hbound n hn
    rw [entries_append n e hid hasked, he, hheld]
    cases hsame : call.id.isSame asked with
    | true =>
      -- What the bound has dropped before does not return: the end of an end is an end.
      exact List.rtake_rtake_concat (Nat.le_succ n) _ e
    | false => simp
  | cleared hid he =>
    rw [entries_clear hid hasked, he, hheld]
    cases hsame : call.id.isSame asked <;> simp
  | idle hempty he =>
    have hnothing : c.entries asked = [] := by simp [entries, hempty]
    rw [he]
    cases hsame : call.id.isSame asked <;> simp [hnothing, ← hheld]

end Effect

/-! ### All calls -/

variable {done : List Call}

theorem performAll_holds (calls : List Call) (hbound : ∀ n, c.bound = .ok n → n = bound)
    (hc : c.Holds bound done) :
    (c.performAll calls).2.Holds bound (done ++ (c.performAll calls).1) ∧
      (c.performAll calls).2.bound = c.bound := by
  induction calls generalizing c done with
  | nil => exact ⟨(List.append_nil done).symm ▸ hc, rfl⟩
  | cons call rest ih =>
    have heffect := c.effect_perform call
    rw [performAll]
    rcases hnext : c.perform call with ⟨e | ⟨⟩, next⟩
    · rw [hnext] at heffect
      cases heffect
      exact ih hbound hc
    · rw [hnext] at heffect
      have hsame : next.bound = c.bound := heffect.bound_eq
      obtain ⟨hholds, hkept⟩ := ih (hsame ▸ hbound) (heffect.holds hbound hc)
      rw [List.append_assoc] at hholds
      exact ⟨hholds, hkept.trans hsame⟩

/-- With a bound no call on an id that is a key fails, so that the history is that of all calls. -/
theorem logged_performAll (done calls : List Call) (hbound : c.bound = .ok bound)
    (hasked : asked.isKey = true) :
    Log.logged asked (done ++ (c.performAll calls).1) = Log.logged asked (done ++ calls) := by
  induction calls generalizing c done with
  | nil => rfl
  | cons call rest ih =>
    have heffect := c.effect_perform call
    rw [performAll]
    rcases hnext : c.perform call with ⟨e | ⟨⟩, next⟩
    · rw [hnext] at heffect
      cases heffect with
      | failed h =>
        -- With a bound only an id that is no key can be at fault, and that is not the one asked
        -- for.
        have hkey : call.id.isKey = false := h.resolve_right (by simp [hbound])
        rw [ih _ hbound, logged_append_cons_of_other (Value.isSame_of_not_isKey hkey hasked)]
    · rw [hnext] at heffect
      dsimp only
      rw [List.append_cons, ih _ (heffect.bound_eq.trans hbound), ← List.append_cons]

theorem entries_performAll_of_other (calls : List Call) (hasked : asked.isKey = true)
    (hother : ∀ call ∈ calls, call.id.isSame asked = false) :
    (c.performAll calls).2.entries asked = c.entries asked := by
  induction calls generalizing c with
  | nil => rfl
  | cons call rest ih =>
    have hfirst := (c.effect_perform call).entries_of_other hasked
      (hother call List.mem_cons_self)
    rw [performAll]
    rcases hnext : c.perform call with ⟨e | ⟨⟩, next⟩ <;> rw [hnext] at hfirst <;>
      exact (ih fun call hcall => hother call (List.mem_cons_of_mem _ hcall)).trans hfirst

/-! ### Looking at a buffer -/

theorem latest_congr (h : c'.entries id = c.entries id) (limit : Value) :
    c'.latest id limit = c.latest id limit := by
  simp only [latest, h]

theorem latest_null (hid : id.isKey = true) : c.latest id .null = .ok (c.entries id) := by
  simp [latest, hid, Value.isTruthy]

theorem latest_int (hid : id.isKey = true) {k : Nat} (hk : 1 ≤ k) :
    c.latest id (.int k) = .ok ((c.entries id).rtake k) := by
  have htruthy : (Value.int k).isTruthy = true := by
    simp only [Value.isTruthy, bne_iff_ne]
    omega
  rw [latest, hid, htruthy]
  simp [tail, keepLast, List.rtake]

theorem boundOf_int {n : Int} (hn : 1 ≤ n) : boundOf (.int n) =
    if n < Value.wordBound then .ok n.toNat
    else .error (.overflow "Python int too large to convert to C ssize_t") := by
  have htruthy : (Value.int n).isTruthy = true := by
    simp only [Value.isTruthy, bne_iff_ne]
    omega
  rw [boundOf, Value.orElse, if_pos htruthy, Value.toBound]
  have hword : (0 : Int) < Value.wordBound := by decide
  split_ifs <;> first | rfl | omega

/-- The buffer of an id holds the latest of the entries that were logged under it since it was
cleared last, as many as the bound says, and a limit takes the latest ones of these. Calls on other
ids change neither. Only a bound that is no word makes a call on the id fail, and then every call
that logs. -/
theorem buffers_hold_latest {bound : Int} (hbound : 1 ≤ bound) (calls : List Call) {id : Value}
    (hid : id.isKey = true) :
    let run := (new (.int bound)).performAll calls
    let history := Log.logged id run.1
    run.2.latest id .null = .ok (history.rtake bound.toNat) ∧
    (∀ k : Nat, 1 ≤ k → run.2.latest id (.int k) =
      .ok (history.rtake (min k (min bound.toNat history.length)))) ∧
    (∀ more, (∀ call ∈ more, call.id.isSame id = false) → ∀ limit,
      (run.2.performAll more).2.latest id limit = run.2.latest id limit) ∧
    (bound < Value.wordBound → history = Log.logged id calls) ∧
    ∀ call : Call, call.id.isKey = true → ((run.2.perform call).1 = .ok () ↔
      bound < Value.wordBound ∨ call.entry? = none) := by
  intro run history
  have hnew : (new (.int bound)).bound = boundOf (.int bound) := rfl
  rw [boundOf_int hbound] at hnew
  have hfirst : ∀ n, (new (.int bound)).bound = .ok n → n = bound.toNat := by
    intro n hn
    rw [hnew] at hn
    split_ifs at hn
    exact (Except.ok.inj hn).symm
  have hempty : (new (.int bound)).Holds bound.toNat [] := by simp [Holds, entries, new, Log.logged]
  obtain ⟨hholds, hkept⟩ := performAll_holds calls hfirst hempty
  have hentries : run.2.entries id = history.rtake bound.toNat := hholds id hid
  refine ⟨?_, fun k hk => ?_, fun more hmore limit => ?_, fun hword => ?_, fun call hcall => ?_⟩
  · rw [latest_null hid, hentries]
  · have hlength : history.length - min k bound.toNat =
        history.length - min k (min bound.toNat history.length) := by omega
    rw [latest_int hid hk, hentries, List.rtake_rtake, List.rtake, List.rtake, hlength]
  · exact latest_congr (entries_performAll_of_other more hid hmore) limit
  · rw [if_pos hword] at hnew
    exact logged_performAll [] calls hnew hid
  · rw [(run.2.effect_perform call).succeeds_iff hcall, hkept, hnew]
    split_ifs with hword <;> simp [hword]

/-- Calls on two ids, both of which are cleared in between, and one on a list, which is no key. -/
def chatter : List Call :=
  [.log "0" (.text "a") (.text "Buy") (.int 0), .clear (.text "a"),
    .sink "1" (.text "a") (.text "Buy") (.int 1), .log "2" (.list []) (.text "Buy") (.int 2),
    .sink "3" (.text "b") (.text "Sell") (.int 3), .log "4" (.text "a") (.text "Sell") (.int 4),
    .clear (.text "b"), .sink "5" (.text "a") (.text "Error") (.int 5)]

theorem chatter_leaves_latest_two :
    (1 : Int) ≤ 2 ∧ (Value.text "a").isKey = true ∧
    let last := ((new (.int 2)).performAll chatter).2
    last.latest (.text "a") .null =
      .ok [⟨"4", .text "Sell", .int 4⟩, ⟨"5", .text "Error", .int 5⟩] ∧
    last.latest (.text "a") (.int 1) = .ok [⟨"5", .text "Error", .int 5⟩] ∧
    (last.performAll [.clear (.text "b")]).2.latest (.text "a") (.int 1) =
      .ok [⟨"5", .text "Error", .int 5⟩] := by
  have hbound : (1 : Int) ≤ 2 := by decide
  have hkey : (Value.text "a").isKey = true := rfl
  obtain ⟨hall, hlimit, hother, hword, -⟩ := buffers_hold_latest hbound chatter hkey
  have hhistory : Log.logged (.text "a") ((new (.int 2)).performAll chatter).1 =
      [⟨"1", .text "Buy", .int 1⟩, ⟨"4", .text "Sell", .int 4⟩, ⟨"5", .text "Error", .int 5⟩] := by
    rw [hword (by decide)]
    rfl
  rw [hhistory] at hall hlimit
  refine ⟨hbound, hkey, hall, hlimit 1 le_rfl, ?_⟩
  rw [hother [.clear (.text "b")] (List.forall_mem_singleton.mpr rfl)]
  exact hlimit 1 le_rfl

end Center

end TradingRules.Log
