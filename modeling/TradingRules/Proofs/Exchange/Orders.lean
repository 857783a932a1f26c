import TradingRules.Exchange.Trading
import TradingRules.Proofs.Exchange.Answers
import TradingRules.Proofs.Exchange.Traces
import TradingRules.Proofs.Value.Names
import TradingRules.Proofs.Value.Readings

/-!
# Reports about orders

Placing an order reports what went wrong, and reports a success exactly if its one request was
accepted. Three faults are not reported but passed on: an amount that is too large for a double, a
secret that looks like a key of another kind, and an answer that is nested too deeply to be read.
-/

namespace TradingRules

namespace Exchange

variable {σ : Type}

/-! ### What an order needs -/

/-- The amounts that an order needs; there are none if the exchange has no such order. -/
def neededAmounts (side kind : String) (price volume : Value) : Option (List Value) :=
  if kind = "market" ∧ side = "bid" then some [price]
  else if kind = "market" ∧ side = "ask" then some [volume]
  else if kind = "limit" then some [price, volume]
  else none

/-- The first amount that cannot be written is a whole number that is too large for a double. -/
def IsOversized (amounts : List Value) : Prop :=
  ∃ before v after, amounts = before ++ v :: after ∧
    (∀ a ∈ before, ∃ text, amountText a = .ok text) ∧ v.ExceedsDoubles

theorem escapes_amountText (v : Value) :
    Outcome.Escapes isReportable (amountText v) ↔ v.ExceedsDoubles := by
  have hread := Value.reading_toFloat v
  rw [amountText]
  generalize v.toFloat = x at hread ⊢
  cases hread with
  | number x _ hsize => exact iff_of_false (Outcome.not_escapes_ok _) hsize
  | ofKind message _ hsize | unreadable message _ hsize =>
    apply iff_of_false _ hsize
    rintro ⟨e, ⟨⟩, hcaught⟩
    cases hcaught
  | ofSize message _ hsize => exact iff_of_true ⟨_, rfl, rfl⟩ hsize

theorem escapes_amountTexts (amounts : List Value) :
    Outcome.Escapes isReportable (amounts.mapM amountText) ↔ IsOversized amounts := by
  rw [Outcome.escapes_mapM, IsOversized]
  simp only [escapes_amountText]

variable {market side kind : String} {price volume : Value}

/-- What a body is made of: the texts of the amounts that the order needs. -/
theorem orderBody_cases (market side kind : String) (price volume : Value) :
    (neededAmounts side kind price volume = none ∧ ∃ message,
      orderBody (.text market) (.text side) (.text kind) price volume =
        .error (.badValue message)) ∨
    ∃ amounts, neededAmounts side kind price volume = some amounts ∧
      ∃ form : List String → Fields, (∀ texts, form texts ≠ []) ∧
        orderBody (.text market) (.text side) (.text kind) price volume =
          (amounts.mapM amountText >>= fun texts => pure (form texts)) := by
  have htext : ∀ s t : String, (Value.text s == .text t) = decide (s = t) := by
    intro s t
    rw [Bool.eq_iff_iff, Value.beq_text_iff]
    simp
  unfold neededAmounts orderBody
  simp only [htext, ← Bool.decide_and, decide_eq_true_eq]
  split_ifs with hbuy hsell hlimit
  · right
    refine ⟨[price], rfl, fun texts => ("market", .text market) :: ("side", .text side) ::
      ("ord_type", .text "price") :: ["price"].zip (texts.map .text), nofun, ?_⟩
    simp only [List.mapM_cons, List.mapM_nil, bind_assoc, pure_bind]
    rfl
  · right
    refine ⟨[volume], rfl, fun texts => ("market", .text market) :: ("side", .text side) ::
      ("ord_type", .text "market") :: ["volume"].zip (texts.map .text), nofun, ?_⟩
    simp only [List.mapM_cons, List.mapM_nil, bind_assoc, pure_bind]
    rfl
  · right
    refine ⟨[price, volume], rfl, fun texts => ("market", .text market) ::
      ("side", .text side) :: ("ord_type", .text "limit") ::
      ["price", "volume"].zip (texts.map .text), nofun, ?_⟩
    simp only [List.mapM_cons, List.mapM_nil, bind_assoc, pure_bind]
    rfl
  · exact .inl ⟨rfl, _, rfl⟩

theorem orderBody_ne_nil {body : Fields}
    (h : orderBody (.text market) (.text side) (.text kind) price volume = .ok body) :
    body ≠ [] := by
  rcases orderBody_cases market side kind price volume with
    ⟨-, message, hbody⟩ | ⟨amounts, -, form, hform, hbody⟩
  · rw [hbody] at h
    cases h
  · rw [hbody] at h
    obtain ⟨texts, -, hfilled⟩ := Outcome.bind_eq_ok.mp h
    obtain rfl := Except.ok.inj hfilled
    exact hform texts

theorem escapes_orderBody :
    Outcome.Escapes isReportable
        (orderBody (.text market) (.text side) (.text kind) price volume) ↔
      ∃ amounts, neededAmounts side kind price volume = some amounts ∧ IsOversized amounts := by
  rcases orderBody_cases market side kind price volume with
    ⟨hnone, message, hbody⟩ | ⟨amounts, hsome, form, -, hbody⟩
  · rw [hnone, hbody, Outcome.escapes_error_iff]
    exact iff_of_false nofun nofun
  · rw [hsome, hbody, Outcome.escapes_bind_pure, escapes_amountTexts]
    simp only [Option.some.injEq, exists_eq_left']

/-- Is there no such order, or an amount that it needs and that cannot be written? -/
def IsUnwritable (side kind : String) (price volume : Value) : Prop :=
  ∀ amounts, neededAmounts side kind price volume = some amounts →
    ∃ v ∈ amounts, ∀ text, amountText v ≠ .ok text

theorem orderBody_ne_ok (h : IsUnwritable side kind price volume) (body : Fields) :
    orderBody (.text market) (.text side) (.text kind) price volume ≠ .ok body := by
  intro hok
  rcases orderBody_cases market side kind price volume with
    ⟨-, message, hbody⟩ | ⟨amounts, hsome, form, -, hbody⟩
  · cases hbody.symm.trans hok
  · rw [hbody] at hok
    obtain ⟨texts, htexts, -⟩ := Outcome.bind_eq_ok.mp hok
    obtain ⟨v, hv, hunwritten⟩ := h amounts hsome
    obtain ⟨text, htext⟩ := Outcome.exists_ok_of_mapM htexts hv
    exact hunwritten text htext

/-! ### Signing -/

namespace Client

variable (c : Client) (link : Link σ)

/-- The token of a request. -/
def signed (params : Value) (nonce : String) : Outcome Token :=
  match c.credentials with
  | none => .error unsignedFault
  | some keys => do
    let fields ← signedFields params
    Token.sign keys.secret (← claimsOf keys.access nonce fields)

/-- The body can be signed, but the secret looks like a key of another kind. -/
def IsMiskeyed (body : Fields) : Prop :=
  ∃ keys secret bytes query, c.credentials = some keys ∧ keys.secret = .text secret ∧
    encode secret = .ok bytes ∧ looksLikeKey secret = true ∧ queryText body = .ok query

theorem encode_cases (s : String) :
    (∃ bytes, encode s = .ok bytes) ∨ ∃ halves, encode s = .error (.unencodable halves) := by
  rw [encode]
  cases Text.firstHalves? s with
  | none => exact .inl ⟨_, rfl⟩
  | some halves => exact .inr ⟨halves, rfl⟩

theorem escapes_secretBytes (v : Value) : Outcome.Escapes isReportable (secretBytes v) ↔
    ∃ secret bytes, v = .text secret ∧ encode secret = .ok bytes ∧ looksLikeKey secret = true := by
  have hreported : ∀ e : Fault, isReportable e = true →
      ¬Outcome.Escapes isReportable (.error e : Outcome (List UInt8)) := by
    intro e hreported
    rw [Outcome.escapes_error_iff, hreported]
    exact nofun
  cases v with
  | text secret =>
    simp only [secretBytes, Value.text.injEq, exists_and_left, exists_eq_left']
    rcases encode_cases secret with ⟨bytes, hbytes⟩ | ⟨halves, hhalves⟩
    · rw [hbytes, Outcome.ok_bind]
      cases looksLikeKey secret with
      | true => exact iff_of_true ⟨.unfitKey, rfl, rfl⟩ ⟨bytes, rfl, rfl⟩
      | false => exact iff_of_false (Outcome.not_escapes_ok _) fun ⟨_, _, h⟩ => nomatch h
    · rw [hhalves]
      exact iff_of_false (hreported _ rfl) fun ⟨_, h, _⟩ => nomatch h
  | null | bool | int | real | undefined | list | object =>
    exact iff_of_false (hreported _ rfl) fun ⟨_, _, h, _⟩ => nomatch h

theorem not_escapes_plusForBlank (s : String) :
    ¬Outcome.Escapes isReportable (plusForBlank s) := by
  rw [plusForBlank, Outcome.escapes_bind_pure]
  rcases encode_cases s with ⟨bytes, hbytes⟩ | ⟨halves, hhalves⟩
  · rw [hbytes]
    exact Outcome.not_escapes_ok bytes
  · rw [hhalves, Outcome.escapes_error_iff]
    exact nofun

/-- A text that is part of no address is reported. -/
theorem not_escapes_queryText (params : Fields) :
    ¬Outcome.Escapes isReportable (queryText params) := by
  rw [queryText, Outcome.escapes_bind_pure, Outcome.escapes_mapM]
  rintro ⟨_, f, _, -, -, hparameter⟩
  unfold parameterTexts at hparameter
  rw [Outcome.escapes_bind] at hparameter
  rcases hparameter with hkey | ⟨key, -, htexts⟩
  · exact not_escapes_plusForBlank _ hkey
  · obtain ⟨_, text, _, -, -, htext⟩ := (Outcome.escapes_mapM _ _).mp htexts
    rw [Outcome.escapes_bind_pure] at htext
    exact not_escapes_plusForBlank _ htext

theorem escapes_signed {body : Fields} (hbody : body ≠ []) (nonce : String) :
    Outcome.Escapes isReportable (c.signed (.object body) nonce) ↔ c.IsMiskeyed body := by
  have htruthy : (Value.object body).isTruthy = true := by simpa [Value.isTruthy] using hbody
  have hfields : signedFields (.object body) = .ok body := if_pos htruthy
  rw [signed, IsMiskeyed]
  cases c.credentials with
  | none =>
    rw [Outcome.escapes_error_iff]
    apply iff_of_false (by decide)
    rintro ⟨_, _, _, _, h, -⟩
    cases h
  | some keys =>
    have hempty : body.isEmpty = false := by simpa using hbody
    simp only [hfields, Outcome.ok_bind, claimsOf, hempty, queryClaims, Bool.false_eq_true,
      if_false, bind_assoc, pure_bind, Option.some.injEq, exists_and_left, exists_eq_left']
    rw [Outcome.escapes_bind, or_iff_right (not_escapes_queryText body)]
    simp only [Token.sign, Outcome.escapes_bind_pure, escapes_secretBytes]
    constructor
    · rintro ⟨query, hquery, secret, bytes, hsecret, hbytes, hkey⟩
      exact ⟨secret, hsecret, bytes, hbytes, hkey, query, hquery⟩
    · rintro ⟨secret, hsecret, bytes, hbytes, hkey, query, hquery⟩
      exact ⟨query, hquery, secret, bytes, hsecret, hbytes, hkey⟩

/-! ### What placing an order comes to -/

/-- What is reported about the data of an order, or about a fault. -/
def reported : Outcome Value → Outcome Value
  | .ok data => .ok (accepted data)
  | .error e => if isReportable e then .ok (refused (errorOf e)) else .error e

/-- An outcome is a report that says whether the order succeeded. -/
def Reports (success : Bool) (x : Outcome Value) : Prop :=
  ∃ fields : Fields, x = .ok (.object fields) ∧ fields.get? "success" = some (.bool success)

theorem reported_fails_iff (x : Outcome Value) :
    (∃ e, reported x = .error e) ↔ Outcome.Escapes isReportable x := by
  cases x with
  | ok data => simp [reported]
  | error e =>
    rw [reported, Outcome.escapes_error_iff]
    cases isReportable e <;> simp

theorem reports_object_iff (success : Bool) (fields : Fields) :
    Reports success (.ok (.object fields)) ↔
      fields.get? "success" = some (.bool success) := by
  constructor
  · rintro ⟨_, ⟨⟩, hget⟩
    exact hget
  · intro hget
    exact ⟨fields, rfl, hget⟩

theorem reports_reported_iff (success : Bool) (x : Outcome Value) :
    Reports success (reported x) ↔ (success = true ∧ ∃ data, x = .ok data) ∨
      success = false ∧ ∃ e, x = .error e ∧ isReportable e = true := by
  cases x with
  | ok data =>
    have hget : Fields.get? [("success", .bool true), ("data", data)] "success" =
      some (.bool true) := rfl
    rw [reported, accepted, reports_object_iff, hget]
    cases success <;> simp
  | error e =>
    rw [reported]
    cases he : isReportable e with
    | false =>
      have hfails : ¬Reports success (.error e) := nofun
      simp [hfails, he]
    | true =>
      have hget : Fields.get? [("success", .bool false), ("error", errorOf e)] "success" =
        some (.bool false) := rfl
      rw [if_pos rfl, refused, reports_object_iff, hget]
      cases success <;> simp [he]

theorem catches_isReportable : Catches isReportable true where
  refusal _ _ _ := rfl
  garbled h := by simp [isReportable, Fault.isBadValue, h]
  tooDeep _ := rfl

/-- The ways in which sending an order can go: it cannot be signed, or one request is sent. -/
inductive Sent (body : Fields) : Outcome Value → List Exchanged → Prop
  | unsigned {nonce : String} {e : Fault} (h : c.signed (.object body) nonce = .error e) :
      Sent body (.error e) []
  | posted {nonce : String} {token : Token} (h : c.signed (.object body) nonce = .ok token)
      (r : Request) (hverb : r.verb = .post) (hbody : r.body = .object body) (s : σ) :
      Sent body (received (link.send r s).1) [(r, (link.send r s).1)]

/-- Placing an order reports what sending it comes to, if its body can be written. -/
inductive Placed (body : Outcome Fields) : Outcome Value → List Exchanged → Prop
  | unwritten {e : Fault} (h : body = .error e) : Placed body (reported (.error e)) []
  | sent {fields : Fields} {x : Outcome Value} {log : List Exchanged} (hbody : body = .ok fields)
      (h : c.Sent link fields x log) : Placed body (reported x) log

theorem emits_createToken (params : Value) :
    Emits (c.createToken link.recording params) fun x log =>
      log = [] ∧ ∃ nonce, x = c.signed params nonce := by
  unfold createToken signed
  cases c.credentials with
  | none => exact .throw ⟨rfl, "", rfl⟩
  | some keys =>
    apply (emits_nonce link).bind
    · rintro e log ⟨-, nonce, ⟨⟩⟩
    · rintro nonce log ⟨rfl, -⟩
      apply Emits.bind (.liftM (P := fun x log => x = signedFields params ∧ log = []) ⟨rfl, rfl⟩)
      · rintro e log ⟨he, rfl⟩
        refine ⟨rfl, nonce, ?_⟩
        dsimp only
        rw [← he]
        rfl
      · rintro fields log ⟨hfields, rfl⟩
        refine .liftM ⟨rfl, nonce, ?_⟩
        dsimp only
        rw [← hfields]
        rfl

theorem emits_sendOrder (body : Fields) :
    Emits (c.sendOrder link.recording body) (c.Sent link body) := by
  apply (c.emits_createToken link (.object body)).bind
  · rintro e log ⟨rfl, nonce, he⟩
    exact .unsigned he.symm
  · rintro token log ⟨rfl, nonce, htoken⟩
    apply (emits_exchange link _).mono
    rintro x log ⟨s, rfl, rfl⟩
    exact .posted htoken.symm _ rfl rfl s

theorem emits_placeOrder (market side kind price volume : Value) :
    Emits (c.placeOrder link.recording market side kind price volume)
      (c.Placed link (orderBody market side kind price volume)) := by
  let written := orderBody market side kind price volume
  have hhandle : ∀ e log, c.Placed link written (reported (.error e)) log →
      Emits (if isReportable e then return refused (errorOf e) else throw e :
        Action (List Exchanged × σ) Value) fun x more => c.Placed link written x (log ++ more) := by
    intro e log hplaced
    rw [reported] at hplaced
    split_ifs at hplaced ⊢
    · exact .pure ((List.append_nil log).symm ▸ hplaced)
    · exact .throw ((List.append_nil log).symm ▸ hplaced)
  -- A fault that is handled comes from writing the body or from sending it.
  apply Emits.tryCatch (P := fun x log => (∃ e, x = .error e ∧ written = .error e ∧ log = []) ∨
    ∃ fields y, x = y.map accepted ∧ written = .ok fields ∧ c.Sent link fields y log)
  · apply Emits.bind (.liftM (P := fun x log => x = written ∧ log = []) ⟨rfl, rfl⟩)
    · rintro e log ⟨he, rfl⟩
      exact .inl ⟨e, rfl, he.symm, rfl⟩
    · rintro fields log ⟨hfields, rfl⟩
      apply (c.emits_sendOrder link fields).bind
      · intro e log hsent
        exact .inr ⟨fields, .error e, rfl, hfields.symm, hsent⟩
      · intro data log hsent
        refine .pure (.inr ⟨fields, .ok data, rfl, hfields.symm, ?_⟩)
        rwa [List.append_nil]
  · rintro report log (⟨e, ⟨⟩, -⟩ | ⟨fields, y, hy, hwritten, hsent⟩)
    cases y with
    | error e => cases hy
    | ok data =>
      obtain rfl := Except.ok.inj hy
      exact .sent hwritten hsent
  · rintro e log (⟨e, ⟨⟩, hwritten, rfl⟩ | ⟨fields, y, hy, hwritten, hsent⟩)
    · exact hhandle e [] (.unwritten hwritten)
    · cases y with
      | ok data => cases hy
      | error e =>
        obtain rfl := Except.error.inj hy
        exact hhandle _ log (.sent hwritten hsent)

section

variable {c link} {body : Fields} {x : Outcome Value} {log : List Exchanged}

theorem Sent.escapes_iff (h : c.Sent link body x log) (hlink : link.SpeaksHttp)
    (hbody : body ≠ []) : Outcome.Escapes isReportable x ↔
      c.IsMiskeyed body ∨ ∃ r answer, log = [(r, answer)] ∧ IsTooDeep answer := by
  cases h with
  | @unsigned nonce e hsigned =>
    rw [← escapes_signed c hbody nonce, hsigned, Outcome.escapes_error_iff,
      Outcome.escapes_error_iff]
    simp
  | @posted nonce token hsigned r _ _ s =>
    have hkey : ¬c.IsMiskeyed body := by
      rw [← escapes_signed c hbody nonce, hsigned]
      exact Outcome.not_escapes_ok token
    rw [escapes_received catches_isReportable (hlink r s)]
    simp [hkey]

theorem Sent.succeeds_iff (h : c.Sent link body x log) (hlink : link.SpeaksHttp) :
    (∃ data, x = .ok data) ↔
      ∃ r answer data, log = [(r, answer)] ∧ r.verb = .post ∧ Holds answer data := by
  cases h with
  | unsigned => simp
  | posted _ r hverb _ s => simp [received_eq_ok_iff (hlink r s), hverb]

namespace Placed

variable {body : Outcome Fields}

theorem fails_iff (h : c.Placed link body x log) (hlink : link.SpeaksHttp)
    (hfilled : ∀ fields, body = .ok fields → fields ≠ []) :
    (∃ e, x = .error e) ↔ Outcome.Escapes isReportable body ∨
      (∃ fields, body = .ok fields ∧ c.IsMiskeyed fields) ∨
      ∃ r answer, log = [(r, answer)] ∧ IsTooDeep answer := by
  cases h with
  | unwritten hbody =>
    rw [reported_fails_iff, hbody, Outcome.escapes_error_iff, Outcome.escapes_error_iff]
    simp
  | sent hbody hsent =>
    rw [reported_fails_iff, hsent.escapes_iff hlink (hfilled _ hbody), hbody]
    simp

theorem exists_reports (h : c.Placed link body x log) {report : Value} (hok : x = .ok report) :
    ∃ success, Reports success x := by
  obtain ⟨y, hy⟩ : ∃ y, x = reported y := by cases h <;> exact ⟨_, rfl⟩
  rw [hy] at hok ⊢
  cases y with
  | ok data => exact ⟨true, (reports_reported_iff true _).mpr (.inl ⟨rfl, data, rfl⟩)⟩
  | error e =>
    cases he : isReportable e with
    | true => exact ⟨false, (reports_reported_iff false _).mpr (.inr ⟨rfl, e, rfl, he⟩)⟩
    | false =>
      rw [reported, he] at hok
      cases hok

theorem reports_true_iff (h : c.Placed link body x log) (hlink : link.SpeaksHttp) :
    Reports true x ↔
      ∃ r answer data, log = [(r, answer)] ∧ r.verb = .post ∧ Holds answer data := by
  cases h with
  | unwritten => simp [reports_reported_iff]
  | sent _ hsent => rw [reports_reported_iff, ← hsent.succeeds_iff hlink]; simp

/-- Nothing is sent without a body, and no success is reported. -/
theorem of_unwritten (h : c.Placed link body x log) (hbody : ∀ fields, body ≠ .ok fields) :
    log = [] ∧ ∀ report, x = .ok report → Reports false x := by
  cases h with
  | sent hok => exact absurd hok (hbody _)
  | @unwritten e he =>
    refine ⟨rfl, fun report hok => ?_⟩
    cases hreportable : isReportable e with
    | true => exact (reports_reported_iff false _).mpr (.inr ⟨rfl, e, rfl, hreportable⟩)
    | false =>
      rw [reported, hreportable] at hok
      cases hok

end Placed

end

variable {link}

/-- An order is reported about unless one of three faults keeps it from that, and a report says
whether the order succeeded. Nothing is sent for an order that the exchange does not have or that
needs an amount that cannot be written. An order succeeds exactly if one request was sent for it
and the response to that was accepted and is JSON. -/
theorem order_reported_unless_oversized_miskeyed_or_tooDeep (hlink : link.SpeaksHttp)
    (market side kind : String) (price volume : Value) (s : σ) :
    let placed := traced
      (c.placeOrder link.recording (.text market) (.text side) (.text kind) price volume) s
    ((∃ e, placed.1 = .error e) ↔
      (∃ amounts, neededAmounts side kind price volume = some amounts ∧ IsOversized amounts) ∨
      (∃ body, orderBody (.text market) (.text side) (.text kind) price volume = .ok body ∧
        c.IsMiskeyed body) ∨
      ∃ r answer, placed.2 = [(r, answer)] ∧ IsTooDeep answer) ∧
    (∀ report, placed.1 = .ok report → ∃ success, Reports success placed.1) ∧
    (IsUnwritable side kind price volume → placed.2 = [] ∧
      ∀ report, placed.1 = .ok report → Reports false placed.1) ∧
    (Reports true placed.1 ↔ ∃ r answer body, placed.2 = [(r, answer)] ∧ r.verb = .post ∧
      Holds answer body) := by
  have hplaced := (c.emits_placeOrder link (.text market) (.text side) (.text kind) price
    volume).traced s
  refine ⟨?_, fun report => hplaced.exists_reports, ?_, hplaced.reports_true_iff hlink⟩
  · rw [hplaced.fails_iff hlink fun fields => orderBody_ne_nil, escapes_orderBody]
  · intro hunwritable
    exact hplaced.of_unwritten (orderBody_ne_ok hunwritable)

/-- A sale without a volume is reported as a failure, and nothing is sent. -/
theorem sale_without_volume_reported :
    (Link.answering "\x7b\x7d").SpeaksHttp ∧
      let placed := traced (placeOrder ⟨some ⟨.text "access", .text "secret"⟩, "", .null⟩
        (Link.answering "\x7b\x7d").recording (.text "KRW-BTC") (.text "ask") (.text "market")
        .null .null) ()
      placed.2 = [] ∧ Reports false placed.1 := by
  have hlink := Link.answering_speaksHttp "\x7b\x7d"
  obtain ⟨hfails, -, hsilent, -⟩ := order_reported_unless_oversized_miskeyed_or_tooDeep
    ⟨some ⟨.text "access", .text "secret"⟩, "", .null⟩ hlink "KRW-BTC" "ask" "market" .null .null ()
  have hneeded : neededAmounts "ask" "market" .null .null = some [.null] := rfl
  have hunwritable : IsUnwritable "ask" "market" .null .null := by
    rintro amounts hamounts
    obtain rfl := Option.some.inj (hneeded.symm.trans hamounts)
    exact ⟨.null, List.mem_singleton_self _, nofun⟩
  obtain ⟨hlog, hreports⟩ := hsilent hunwritable
  refine ⟨hlink, hlog, ?_⟩
  generalize traced _ _ = placed at hfails hlog hreports ⊢
  rcases hplaced : placed.1 with e | report
  · exfalso
    rcases hfails.mp ⟨e, hplaced⟩ with ⟨amounts, hamounts, hlarge⟩ | ⟨body, hbody, -⟩ | hsent
    · obtain rfl := Option.some.inj (hneeded.symm.trans hamounts)
      obtain ⟨before, v, after, heq, -, hlarge⟩ := hlarge
      have hv : v ∈ [Value.null] := by simp [heq]
      obtain rfl := List.mem_singleton.mp hv
      exact hlarge
    · exact orderBody_ne_ok hunwritable body hbody
    · obtain ⟨r, answer, hsent, -⟩ := hsent
      cases hlog.symm.trans hsent
  · exact hplaced ▸ hreports report hplaced

/-- A price that is too large for a double is not reported, but passed on. -/
theorem oversized_price_not_reported :
    (Link.answering "\x7b\x7d").SpeaksHttp ∧
      traced (placeOrder {} (Link.answering "\x7b\x7d").recording (.text "KRW-BTC") (.text "bid")
        (.text "market") (.int (10 ^ 400)) .null) () =
          (.error (.overflow "int too large to convert to float"), []) := by
  have hlarge : Number.floatOfInt? (10 ^ 400) = none := by decide +kernel
  generalize (10 : Int) ^ 400 = n at hlarge ⊢
  have hamount : amountText (.int n) = .error .tooLargeForFloat := by
    rw [amountText, Value.toFloat_int_of_none hlarge]
    rfl
  have hbody : orderBody (.text "KRW-BTC") (.text "bid") (.text "market") (.int n) .null =
      .error .tooLargeForFloat := by
    show (amountText (.int n) >>= _) = _
    rw [hamount]
    rfl
  refine ⟨Link.answering_speaksHttp _, ?_⟩
  have hplaced := (emits_placeOrder {} (.answering "\x7b\x7d") (.text "KRW-BTC") (.text "bid")
    (.text "market") (.int n) .null).traced ()
  rw [hbody] at hplaced
  generalize traced _ _ = placed at hplaced ⊢
  obtain ⟨x, log⟩ := placed
  cases hplaced with
  | unwritten h =>
    obtain rfl := Except.error.inj h
    rfl
  | sent h => cases h

end Client

end Exchange

end TradingRules
