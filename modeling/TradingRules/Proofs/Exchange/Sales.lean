import TradingRules.Proofs.Exchange.Amounts
import TradingRules.Proofs.Exchange.Orders

/-!
# Sales of all that is held

A sale asks for the accounts and sends at most one order, for the balance of the first account of
the currency. The balance is read as a double and written with eight places, so that the order is
for what is held if the balance has no more places than that and is not too large.
-/

namespace TradingRules

namespace Exchange

open Number (AreDigits Numeral Spells overflowBound)

variable {σ : Type}

/-! ### Orders among requests -/

/-- The orders among the requests that were sent. -/
def ordersIn (log : List Exchanged) : List Request :=
  (log.map Prod.fst).filter fun r => r.verb == .post

@[simp] theorem ordersIn_append (log more : List Exchanged) :
    ordersIn (log ++ more) = ordersIn log ++ ordersIn more := by
  simp [ordersIn]

theorem ordersIn_get {r : Request} (h : r.verb = .get) (answer : Except String Response) :
    ordersIn [(r, answer)] = [] := by
  simp [ordersIn, h]

theorem ordersIn_post {r : Request} (h : r.verb = .post) (answer : Except String Response) :
    ordersIn [(r, answer)] = [r] := by
  simp [ordersIn, h]

/-- The text of the volume that an order is for. -/
def volumeText? (order : Request) : Option String :=
  match order.body with
  | .object body => match Fields.get? body "volume" with
    | some (.text text) => some text
    | _ => none
  | _ => none

/-- The order is for a volume. -/
def IsFor (volume : Float) (order : Request) : Prop :=
  ∃ text, amountText (.real volume) = .ok text ∧ volumeText? order = some text

/-- Nothing is sold, or a volume with one order. -/
def Sells (volume : Float) (orders : List Request) : Prop :=
  orders = [] ∨ ∃ order, orders = [order] ∧ IsFor volume order

/-! ### Accounts -/

/-- The first of some rows that is an account of a currency. -/
inductive IsFirstAccount (currency : String) : List Value → Fields → Prop
  | here {account : Fields} {rows : List Value} (h : account.get "currency" = .text currency) :
      IsFirstAccount currency (.object account :: rows) account
  | there {other account : Fields} {rows : List Value}
      (hother : other.get "currency" ≠ .text currency)
      (h : IsFirstAccount currency rows account) :
      IsFirstAccount currency (.object other :: rows) account

variable {currency : String} {rows : List Value}

theorem accountOf?_cons (account : Fields) (rows : List Value) :
    accountOf? currency (.object account :: rows) =
      if account.get "currency" == .text currency then .ok (some account)
      else accountOf? currency rows := by
  rw [accountOf?]
  rfl

theorem accountOf?_of_isFirstAccount {account : Fields} (h : IsFirstAccount currency rows account) :
    accountOf? currency rows = .ok (some account) := by
  induction h with
  | here h => rw [accountOf?_cons, if_pos (Value.beq_text_iff.mpr h)]
  | there hother _ ih => rw [accountOf?_cons, if_neg (mt Value.beq_text_iff.mp hother), ih]

theorem accountOf?_of_absent (hrows : ∀ row ∈ rows, ∃ account, row = .object account)
    (h : ∀ account : Fields, .object account ∈ rows → account.get "currency" ≠ .text currency) :
    accountOf? currency rows = .ok none := by
  induction rows with
  | nil => rfl
  | cons row rows ih =>
    obtain ⟨account, rfl⟩ := hrows row List.mem_cons_self
    have hother := h account List.mem_cons_self
    rw [accountOf?_cons, if_neg (mt Value.beq_text_iff.mp hother)]
    apply ih
    · intro row hrow
      exact hrows row (List.mem_cons_of_mem _ hrow)
    · intro account haccount
      exact h account (List.mem_cons_of_mem _ haccount)

/-- The currency that a market trades in: what stands behind the last hyphen of its name. -/
def IsBaseOf (currency market : String) : Prop :=
  '-' ∉ currency.toList ∧ (market = currency ∨ ∃ quote, market = quote ++ "-" ++ currency)

theorem currencyOf_of_isBaseOf {market : String} (h : IsBaseOf currency market) :
    currencyOf (.text market) = .ok currency := by
  obtain ⟨hplain, hmarket⟩ := h
  have hall : ∀ c ∈ currency.toList.reverse, (c != '-') = true := by
    intro c hc
    rw [bne_iff_ne]
    rintro rfl
    exact hplain (List.mem_reverse.mp hc)
  have hlast : market.toList.reverse.takeWhile (· != '-') = currency.toList.reverse := by
    rcases hmarket with rfl | ⟨quote, rfl⟩
    · exact List.takeWhile_eq_self_iff.mpr hall
    · have hhyphen : ("-" : String).toList = ['-'] := rfl
      rw [String.toList_append, String.toList_append, hhyphen, List.reverse_append,
        List.takeWhile_append_of_pos hall]
      simp
  rw [currencyOf, hlast, List.reverse_reverse, String.ofList_toList]

/-! ### What a sale sends -/

/-- A sale sends no order, or one for the balance in the accounts that it was told about. -/
inductive Sold (market : Value) : List Exchanged → Prop
  | nothing {log : List Exchanged} (h : ordersIn log = []) : Sold market log
  | balance {rest : List Exchanged} {currency : String} {accounts : Value} {volume : Float}
      {order : Request} {r : Request} {answer : Except String Response}
      (hanswer : Client.received answer = .ok accounts)
      (hcurrency : currencyOf market = .ok currency)
      (hbalance : balanceOf currency accounts = .ok volume) (hvolume : ¬volume ≤ 0.0)
      (horder : ordersIn ((r, answer) :: rest) = [order]) (hfor : IsFor volume order) :
      Sold market ((r, answer) :: rest)

namespace Client

variable (c : Client) (link : Link σ)

theorem emits_fetchAccounts : Emits (c.fetchAccounts link.recording) fun x log =>
    ordersIn log = [] ∧ ∀ accounts, x = .ok accounts →
      ∃ r answer, log = [(r, answer)] ∧ received answer = .ok accounts := by
  apply (c.emits_createToken link .null).bind
  · rintro e log ⟨rfl, -⟩
    exact ⟨rfl, nofun⟩
  · rintro token log ⟨rfl, -⟩
    apply (emits_exchange link _).mono
    rintro x log ⟨s, rfl, rfl⟩
    exact ⟨ordersIn_get rfl _, fun accounts hx => ⟨_, _, rfl, hx⟩⟩

theorem emits_orReport {α : Type} {step : Action (List Exchanged × σ) α}
    {P : Outcome α → List Exchanged → Prop} (h : Emits step P) :
    Emits (orReport step) fun x log => ∃ y, P y log ∧ ∀ a, x = .ok (.ok a) → y = .ok a := by
  apply Emits.tryCatch (P := fun x log => ∃ y, P y log ∧ x = y.map .ok)
  · apply h.bind
    · intro e log hP
      exact ⟨.error e, hP, rfl⟩
    · intro a log hP
      exact .pure ⟨.ok a, (List.append_nil log).symm ▸ hP, rfl⟩
  · rintro a log ⟨y, hP, hy⟩
    refine ⟨y, hP, ?_⟩
    rintro b ⟨⟩
    cases y with
    | error e => cases hy
    | ok b' =>
      obtain rfl := Except.ok.inj (Except.ok.inj hy)
      rfl
  · rintro e log ⟨y, hP, hy⟩
    rw [← List.append_nil log] at hP
    split_ifs
    · exact .pure ⟨y, hP, nofun⟩
    · exact .throw ⟨y, hP, nofun⟩

/-- A step sends no order if its parts send none. -/
theorem emits_no_order_bind {α β : Type} {step : Action (List Exchanged × σ) α}
    {next : α → Action (List Exchanged × σ) β} (h : Emits step fun _ log => ordersIn log = [])
    (hnext : ∀ a, Emits (next a) fun _ log => ordersIn log = []) :
    Emits (step >>= next) fun _ log => ordersIn log = [] := by
  apply h.bind
  · exact fun _ _ hlog => hlog
  · intro a log hlog
    apply (hnext a).mono
    intro _ more hmore
    rw [ordersIn_append, hlog, hmore, List.nil_append]

theorem emits_currentPrice (market : Value) :
    Emits (c.currentPrice link.recording market) fun _ log => ordersIn log = [] := by
  apply emits_no_order_bind
  · apply emits_no_order_bind (.liftM rfl)
    intro list
    apply emits_no_order_bind
    · apply (emits_exchange link _).mono
      rintro _ _ ⟨s, rfl, -⟩
      exact ordersIn_get rfl _
    · exact fun _ => .liftM rfl
  · intro prices
    split
    · exact .pure rfl
    · exact .throw rfl

theorem emits_sale {kind : String} (hkind : kind = "market" ∨ kind = "limit")
    (market price : Value) (volume : Float) :
    Emits (c.placeOrder link.recording market (.text "ask") (.text kind) price (.real volume))
      fun _ log => Sells volume (ordersIn log) := by
  apply (c.emits_placeOrder link market (.text "ask") (.text kind) price (.real volume)).mono
  intro x log hplaced
  cases hplaced with
  | unwritten => exact .inl rfl
  | sent hbody hsent =>
    cases hsent with
    | unsigned => exact .inl rfl
    | posted _ r hverb hrequest s =>
      refine .inr ⟨r, ordersIn_post hverb _, ?_⟩
      rw [IsFor, volumeText?, hrequest]
      rcases hkind with rfl | rfl
      · have hform : orderBody market (.text "ask") (.text "market") price (.real volume) =
            (amountText (.real volume) >>= fun text => pure [("market", market),
              ("side", .text "ask"), ("ord_type", .text "market"), ("volume", .text text)]) := rfl
        rw [hform] at hbody
        obtain ⟨text, htext, hfields⟩ := Outcome.bind_eq_ok.mp hbody
        obtain rfl := Except.ok.inj hfields
        exact ⟨text, htext, rfl⟩
      · have hform : orderBody market (.text "ask") (.text "limit") price (.real volume) =
            (amountText price >>= fun limit => amountText (.real volume) >>= fun text =>
              pure [("market", market), ("side", .text "ask"), ("ord_type", .text "limit"),
                ("price", .text limit), ("volume", .text text)]) := rfl
        rw [hform] at hbody
        obtain ⟨limit, -, hbody⟩ := Outcome.bind_eq_ok.mp hbody
        obtain ⟨text, htext, hfields⟩ := Outcome.bind_eq_ok.mp hbody
        obtain rfl := Except.ok.inj hfields
        exact ⟨text, htext, rfl⟩

theorem emits_limitSellAll (market limitPrice : Value) (volume : Float) :
    Emits (c.limitSellAll link.recording market limitPrice volume) fun _ log =>
      Sells volume (ordersIn log) := by
  unfold limitSellAll
  split_ifs
  · exact c.emits_sale link (.inr rfl) market limitPrice volume
  · apply (emits_orReport (c.emits_currentPrice link market)).bind
    · rintro e log ⟨y, hlog, -⟩
      exact .inl hlog
    · rintro (report | price) log ⟨y, hlog, -⟩
      · exact .pure (.inl (by rw [ordersIn_append, hlog]; rfl))
      · apply (c.emits_sale link (.inr rfl) market (.real price) volume).mono
        intro x more hmore
        rwa [ordersIn_append, hlog, List.nil_append]

theorem emits_sellAll (market orderType limitPrice : Value) :
    Emits (c.sellAll link.recording market orderType limitPrice) fun _ log =>
      Sold market log := by
  apply Emits.bind (.liftM (P := fun x log => x = currencyOf market ∧ log = []) ⟨rfl, rfl⟩)
  · rintro e _ ⟨-, rfl⟩
    exact .nothing rfl
  rintro currency _ ⟨hcurrency, rfl⟩
  apply (emits_orReport (c.emits_fetchAccounts link)).bind
  · rintro e log ⟨y, ⟨hlog, -⟩, -⟩
    exact .nothing hlog
  rintro (report | accounts) log ⟨y, ⟨hlog, hfetched⟩, hy⟩
  · refine .pure (.nothing ?_)
    simpa using hlog
  -- From here on the request for the accounts is the first one, and no order.
  obtain ⟨r, answer, rfl, hanswer⟩ := hfetched accounts (hy accounts rfl)
  have hnothing : ∀ report, Emits (pure report : Action (List Exchanged × σ) Value) fun _ more =>
      Sold market ([(r, answer)] ++ more) := fun report => .pure (.nothing hlog)
  have hsold : ∀ {step : Action (List Exchanged × σ) Value} {volume : Float},
      balanceOf currency accounts = .ok volume → ¬volume ≤ 0.0 →
      Emits step (fun _ more => Sells volume (ordersIn more)) →
      Emits step fun _ more => Sold market ([(r, answer)] ++ more) := by
    intro step volume hbalance hvolume hstep
    apply hstep.mono
    intro _ more hmore
    have horders : ordersIn ([(r, answer)] ++ more) = ordersIn more := by
      rw [ordersIn_append, hlog, List.nil_append]
    rcases hmore with hmore | ⟨order, horder, hfor⟩
    · exact .nothing (horders.trans hmore)
    · exact .balance hanswer hcurrency.symm hbalance hvolume (horders.trans horder) hfor
  simp only [List.nil_append]
  apply Emits.bind
    (.liftM (P := fun x log => x = balanceOf currency accounts ∧ log = []) ⟨rfl, rfl⟩)
  · rintro e _ ⟨-, rfl⟩
    exact .nothing hlog
  rintro volume _ ⟨hbalance, rfl⟩
  simp only [List.nil_append]
  split_ifs with hvolume
  · exact hnothing _
  · exact hsold hbalance.symm hvolume (c.emits_sale link (.inl rfl) market .null volume)
  · exact hsold hbalance.symm hvolume (c.emits_limitSellAll link market limitPrice volume)
  · exact hnothing _

end Client

theorem received_of_holds {answer : Except String Response} {body : Value} (h : Holds answer body) :
    Client.received answer = .ok body := by
  obtain ⟨response, rfl, haccepted, hread⟩ := h
  show Client.contents response = _
  rw [contents_of_accepted haccepted, hread]
  rfl

theorem balanceOf_of_isFirstAccount {account : Fields} (h : IsFirstAccount currency rows account) :
    balanceOf currency (.list rows) = ((account.get "balance").orElse (.real 0.0)).toFloat := by
  show (accountOf? currency rows >>= _) = _
  rw [accountOf?_of_isFirstAccount h]
  rfl

theorem balanceOf_of_absent (hrows : ∀ row ∈ rows, ∃ account, row = .object account)
    (h : ∀ account : Fields, .object account ∈ rows → account.get "currency" ≠ .text currency) :
    balanceOf currency (.list rows) = .ok 0.0 := by
  show (accountOf? currency rows >>= _) = _
  rw [accountOf?_of_absent hrows h]
  rfl

/-- A sale sends at most one order. It sends none if there is no account of the currency or nothing
in it. What it sends is an order for the balance, up to what reading and writing it as a number
round; an order for no more than a balance with at most eight places that is not too large. -/
theorem sale_of_what_is_held {σ : Type} (c : Client) (link : Link σ) (market : String)
    (orderType limitPrice : Value) (s : σ) :
    let log := (traced (c.sellAll link.recording (.text market) orderType limitPrice) s).2
    (ordersIn log).length ≤ 1 ∧
    ∀ r answer rest rows currency, log = (r, answer) :: rest → Holds answer (.list rows) →
      (∀ row ∈ rows, ∃ account, row = .object account) → IsBaseOf currency market →
      ((∀ account : Fields, .object account ∈ rows → account.get "currency" ≠ .text currency) →
        ordersIn log = []) ∧
      ∀ account q, IsFirstAccount currency rows account → (account.get "balance").Denotes q →
        (q ≤ 0 → ordersIn log = []) ∧
        (q < overflowBound → ∀ order ∈ ordersIn log, ∃ n : Numeral,
          volumeText? order = some (String.ofList n.chars) ∧ Value.Approximates n.value q ∧
          ∀ units : Int, q * 10 ^ 8 = units → q < 2 ^ 26 → 0 < n.value ∧ n.value ≤ q) := by
  have hsold := (c.emits_sellAll link (.text market) orderType limitPrice).traced s
  dsimp only
  generalize (traced (c.sellAll link.recording (.text market) orderType limitPrice) s).2 = log
    at hsold ⊢
  cases hsold with
  | nothing hnothing =>
    rw [hnothing]
    exact ⟨Nat.zero_le 1, fun _ _ _ _ _ _ _ _ _ => ⟨fun _ => rfl, fun _ _ _ _ =>
      ⟨fun _ => rfl, fun _ _ h => nomatch h⟩⟩⟩
  | @balance rest currency accounts volume order r answer hanswer hcurrency hbalance hvolume horder
      hfor =>
    refine ⟨by rw [horder]; exact le_rfl, ?_⟩
    rintro _ _ _ rows _ ⟨⟩ hholds hrows hbase
    obtain rfl := Except.ok.inj ((received_of_holds hholds).symm.trans hanswer)
    obtain rfl := Except.ok.inj ((currencyOf_of_isBaseOf hbase).symm.trans hcurrency)
    refine ⟨fun habsent => ?_, fun account q hfirst hdenotes => ?_⟩
    · obtain rfl := Except.ok.inj ((balanceOf_of_absent hrows habsent).symm.trans hbalance)
      exact absurd (by decide +kernel) hvolume
    rw [balanceOf_of_isFirstAccount hfirst] at hbalance
    have hpositive : ¬q ≤ 0 := fun hq => hvolume (Value.le_zero_of_denotes hdenotes hq hbalance)
    refine ⟨fun hq => absurd hq hpositive, fun hfits sent hsent => ?_⟩
    rw [horder, List.mem_singleton] at hsent
    obtain ⟨b, hb, hrounded⟩ :=
      Value.rounded_of_denotes hdenotes (not_le.mp hpositive) hfits hbalance
    obtain ⟨n, units, hwritten, hvalue, hnear⟩ := amountText_real hb
    obtain ⟨text, htext, hget⟩ := hfor
    obtain rfl := Except.ok.inj (hwritten.symm.trans htext)
    have happrox := Value.approximates_of_isRounded hrounded hvalue hnear
    refine ⟨n, hsent ▸ hget, happrox, fun units hunits hq => ?_⟩
    have habs : |q| < 2 ^ 26 := by rwa [abs_of_pos (not_le.mp hpositive)]
    rw [happrox.exact hunits habs]
    exact ⟨not_le.mp hpositive, le_rfl⟩

/-- What an account that holds a balance looks like in an answer. -/
def accountsText (balance : String) : String :=
  "[\x7b\"currency\": \"BTC\", \"balance\": \"" ++ balance ++ "\"\x7d]"

/-- What a client with credentials sends for a sale of a currency of which it holds a balance. -/
def saleOf (balance : String) : List Exchanged :=
  (traced (({ credentials := some ⟨.text "access", .text "secret"⟩ } : Client).sellAll
    (Link.answering (accountsText balance)).recording (.text "KRW-BTC") (.text "market") .null)
    ()).2

def isAnsweredWith (text : String) : Exchanged → Bool
  | (_, .ok ⟨.int 200, t⟩) => t == text
  | _ => false

/-- A numeral without a sign and without an exponent. -/
def plain (whole digits : List Char) (h : AreDigits (whole ++ digits))
    (hnonempty : whole ++ digits ≠ []) : Numeral where
  sign := .none
  whole := whole
  fraction := some digits
  exponent := none
  areDigits := h
  nonempty := hnonempty

theorem eq_of_isAnsweredWith {text : String} {e : Exchanged} (h : isAnsweredWith text e = true) :
    e.2 = .ok ⟨.int 200, text⟩ := by
  unfold isAnsweredWith at h
  split at h
  · rw [eq_of_beq h]
  · cases h

/-- The greatest balance with eight places for which that holds is sold, and no more than that. -/
theorem sale_of_greatest_kept_balance :
    ∃ r answer rest, ∃ account : Fields, saleOf "67108863.99999999" = (r, answer) :: rest ∧
      Holds answer (.list [.object account]) ∧ IsBaseOf "BTC" "KRW-BTC" ∧
      IsFirstAccount "BTC" [.object account] account ∧
      (account.get "balance").Denotes (6710886399999999 / 10 ^ 8) ∧
      ∃ (order : Request) (n : Numeral), ordersIn (saleOf "67108863.99999999") = [order] ∧
        volumeText? order = some (String.ofList n.chars) ∧
        0 < n.value ∧ n.value ≤ 6710886399999999 / 10 ^ 8 := by
  let account : Fields := [("currency", .text "BTC"), ("balance", .text "67108863.99999999")]
  have hread : Json.read (accountsText "67108863.99999999") = .ok (.list [.object account]) := by
    with_unfolding_all rfl
  have hhead : (saleOf "67108863.99999999").head?.any
      (isAnsweredWith (accountsText "67108863.99999999")) = true := by decide +kernel
  have hcount : (ordersIn (saleOf "67108863.99999999")).length = 1 := by decide +kernel
  have hsale := (sale_of_what_is_held { credentials := some ⟨.text "access", .text "secret"⟩ }
    (.answering (accountsText "67108863.99999999")) "KRW-BTC" (.text "market") .null ()).2
  have hbase : IsBaseOf "BTC" "KRW-BTC" := ⟨by decide, .inr ⟨"KRW", rfl⟩⟩
  have hfirst : IsFirstAccount "BTC" [.object account] account := .here rfl
  have hdenotes : (account.get "balance").Denotes (6710886399999999 / 10 ^ 8) :=
    ⟨plain "67108863".toList "99999999".toList (by simp [AreDigits]) (by simp),
      by with_unfolding_all rfl, by decide +kernel⟩
  have hsmall : (6710886399999999 / 10 ^ 8 : ℚ) < 2 ^ 26 := by norm_num
  have hfits := hsmall.trans_le (Number.two_pow_le_overflowBound (by decide))
  obtain ⟨order, horder⟩ := List.length_eq_one_iff.mp hcount
  cases hlog : saleOf "67108863.99999999" with
  | nil =>
    rw [hlog] at hhead
    cases hhead
  | cons e rest =>
    obtain ⟨r, answer⟩ := e
    rw [hlog] at hhead
    have hholds : Holds answer (.list [.object account]) :=
      ⟨_, eq_of_isAnsweredWith hhead, ⟨200, rfl, by decide⟩, hread⟩
    obtain ⟨-, hheld⟩ := hsale r answer rest [.object account] "BTC" hlog hholds
      (fun row hrow => ⟨account, List.mem_singleton.mp hrow⟩) hbase
    obtain ⟨n, hn, -, hkept⟩ := (hheld account _ hfirst hdenotes).2 hfits order
      (horder ▸ List.mem_singleton_self order)
    refine ⟨r, answer, rest, account, rfl, hholds, hbase, hfirst, hdenotes, order, n, ?_, hn, ?_⟩
    · rw [← hlog, horder]
    · exact hkept 6710886399999999 (by norm_num) hsmall

/-- A greater balance with eight places is not kept: more than it is sold. -/
theorem sale_of_more_than_is_held :
    (ordersIn (saleOf "134217728.00000002")).map volumeText? = [some "134217728.00000003"] ∧
      ∃ held sold : Numeral, Spells "134217728.00000002" held ∧
        String.ofList sold.chars = "134217728.00000003" ∧ held.value < sold.value := by
  refine ⟨by decide +kernel, plain "134217728".toList "00000002".toList (by simp [AreDigits])
    (by simp), plain "134217728".toList "00000003".toList (by simp [AreDigits]) (by simp),
    ?_, ?_, ?_⟩
  · with_unfolding_all rfl
  · decide +kernel
  · decide +kernel

end Exchange

end TradingRules
