import BoltBet.Bookmaker.Abstraction
import BoltBet.Market.PartialFailure

/-!
# The API is a bookmaker

While calls run one after the other and nothing fails, every call is one act of a bookmaker, and the
books behind the tables are sound.

* `Fair`: what this asks of the clients, of the ids that are drawn and of the columns.
* `BookedAs`: which acts a history stands for; `Traced`: which calls the rows come from.
* `booked_call`: one call. `api_is_a_bookmaker`: any number of them.
-/

namespace BoltBet

open Async Bookmaker

/-- The mutation id of a request that has one. -/
def ApiCall.mutation? : ApiCall → Option Uuid
  | .deposit _ dto => some dto.clientMutationId
  | .placeBet _ _ dto => some dto.clientMutationId
  | _ => none

/-- The same request again, maybe in another role. -/
inductive ApiCall.Repeats : ApiCall → ApiCall → Prop
  | deposit (u : Uuid) (dto : DepositDto) : Repeats (.deposit u dto) (.deposit u dto)
  | placeBet (u : Uuid) (role role' : Role) (dto : PlaceBetDto) :
      Repeats (.placeBet u role dto) (.placeBet u role' dto)

namespace Bookmaking

/-- **What is asked of a call**, after the history `l`, from the state `s`. -/
structure Fair (l : api.History) (s : Store) (call : ApiCall) (r : Except Err ApiReply)
    (_s' : Store) : Prop where
  /-- A mutation id that was used is only sent again with the same request. -/
  keys : ∀ call' a key, (call', .ok a) ∈ l → call'.mutation? = some key →
    call.mutation? = some key → call'.Repeats call
  /-- The mutation id of a deposit is not the id of a bet. -/
  fresh : ∀ u dto, call = .deposit u dto → ∀ b ∈ s.bets, b.id ≠ dto.clientMutationId
  /-- Postgres takes the row of a bet whose stake was debited. -/
  inserted : ∀ u role dto m, call = .placeBet u role dto → r ≠ .error (.QueryFailedError m)
  /-- What a settlement can pay fits in the balances. -/
  payouts : ∀ id result, call = .settle id result → ∀ u,
    fitsInteger (s.wallet.balanceOf u + payoutSum u (s.betsIn id .ACCEPTED)) = true

/-- What a call that ended so did to the books. -/
inductive Means (l : api.History) : ApiCall → Except Err ApiReply → BetAct → Prop
  | refused {call : ApiCall} (hcall : ∀ tag payload, call ≠ .delivery tag payload) (e : Err) :
      Means l call (.error e) .nothing
  | getBalance (u : Uuid) (reply : ApiReply) : Means l (.getBalance u) (.ok reply) .nothing
  | again {call call' : ApiCall} {a : ApiReply} (reply : ApiReply) (h : (call', .ok a) ∈ l)
      (hrepeats : call'.Repeats call) : Means l call (.ok reply) .nothing
  | deposit (u : Uuid) (dto : DepositDto) (reply : ApiReply) :
      Means l (.deposit u dto) (.ok reply)
        (.deposit ⟨u, dto.clientMutationId, dto.amountCents⟩)
  | createMarket (dto : CreateMarketDto) (reply : MarketResponseDto) :
      Means l (.createMarket dto) (.ok (.market reply)) (.opens reply.id dto.oddsInt)
  | suspend (id : Uuid) (reply : ApiReply) :
      Means l (.suspend id) (.ok reply) (.trades id .suspended)
  | reopen (id : Uuid) (reply : ApiReply) : Means l (.reopen id) (.ok reply) (.trades id .trading)
  | placeBet (role : Role) (dto : PlaceBetDto) (reply : BetResponseDto)
      {w : Wager Uuid Uuid Uuid Uuid} (hid : w.id = reply.id) (hkey : w.key = dto.clientMutationId)
      (hmarket : w.market = dto.marketId) (hstake : w.stake = dto.stakeCents) :
      Means l (.placeBet w.user role dto) (.ok (.bet reply)) (.offer w)
  | settle (id : Uuid) (result : MarketResult) (reply : ApiReply) :
      Means l (.settle id result) (.ok reply) (.settle id (decide (result = .WIN)))
  | delivered (tag : Nat) (payload : BetPlacementPayload) (r : Except Err ApiReply) :
      Means l (.delivery tag payload) r (.accept payload.betId)

/-- **The acts of a history**, call by call. -/
inductive BookedAs : api.History → List BetAct → Prop
  | nil : BookedAs [] []
  | cons {l : api.History} {acts : List BetAct} {call : ApiCall} {r : Except Err ApiReply}
      {a : BetAct} (h : BookedAs l acts) (hm : Means l call r a) :
      BookedAs ((call, r) :: l) (a :: acts)

/-- The row of a deposit. -/
structure DepositedBy (u : Uuid) (dto : DepositDto) (tx : WalletTransaction) : Prop where
  type : tx.type = .DEPOSIT
  referenceId : tx.referenceId = some dto.clientMutationId
  userId : tx.userId = u
  amountCents : tx.amountCents = dto.amountCents

/-- The bet of a request. -/
structure PlacedBy (u : Uuid) (dto : PlaceBetDto) (b : Bet) : Prop where
  userId : b.userId = u
  referenceId : b.referenceId = dto.clientMutationId
  marketId : b.marketId = dto.marketId
  stakeCents : b.stakeCents = dto.stakeCents

/-- **Where the rows come from**, and that every call which succeeded has its own. -/
structure Traced (l : api.History) (s : Store) : Prop where
  deposits : ∀ tx ∈ s.wallet.walletTransactions, tx.type = .DEPOSIT →
    ∃ u dto a, (ApiCall.deposit u dto, .ok a) ∈ l ∧ DepositedBy u dto tx
  deposited : ∀ u dto a, (ApiCall.deposit u dto, .ok a) ∈ l →
    ∃ tx ∈ s.wallet.walletTransactions, DepositedBy u dto tx
  bets : ∀ b ∈ s.bets, ∃ u role dto a, (ApiCall.placeBet u role dto, .ok a) ∈ l ∧ PlacedBy u dto b
  placed : ∀ u role dto a, (ApiCall.placeBet u role dto, .ok a) ∈ l → ∃ b ∈ s.bets, PlacedBy u dto b
  stakes : ∀ tx ∈ s.wallet.walletTransactions, tx.type = .DEBIT →
    ∃ b ∈ s.bets, b.userId = tx.userId ∧ tx.referenceId = some b.referenceId
  unpaid : ∀ b ∈ s.bets, b.status.phase ≠ .closed → s.wallet.rowsFor b.userId .CREDIT b.id = []

/-- What the tables of the API always show. -/
structure Reached (s : Store) : Prop where
  retries : Retries.Inv s
  marketIds : s.MarketIds
  credits : ∀ tx ∈ s.wallet.walletTransactions, tx.type = .CREDIT →
    ∃ b ∈ s.bets, tx.referenceId = some b.id
  payouts : ∀ b ∈ s.bets, fitsInteger b.payoutCents = true

variable {l : api.History} {s s' : Store} {call : ApiCall} {r : Except Err ApiReply}

theorem reached_of_serial (h : api.Serial IsOk Fair .empty l s) : Reached s := by
  obtain ⟨c, hc, rfl, -, -⟩ := h.reach
  have hpayout := Payout.reachable_inv hc
  refine ⟨(Retries.reach hc).1, hpayout.marketIds, fun tx htx ht => ?_,
    PartialFailure.reachable_payouts hc⟩
  obtain ⟨b, hb, -, href, -⟩ := hpayout.credits tx htx ht
  exact ⟨b, hb, href⟩

/-! ## The rows, call by call -/

theorem PlacedBy.same {u : Uuid} {dto : PlaceBetDto} {b b' : Bet} (h : PlacedBy u dto b)
    (hsame : b.Same b') : PlacedBy u dto b' where
  userId := hsame.userId.trans h.userId
  referenceId := hsame.referenceId.trans h.referenceId
  marketId := hsame.marketId.trans h.marketId
  stakeCents := (hsame.congr Bet.stakeCents fun _ _ _ => rfl).trans h.stakeCents

/-- What a call has to show of the rows it leaves. -/
structure Grows (call : ApiCall) (r : Except Err ApiReply) (s s' : Store) : Prop where
  rows : ∀ tx ∈ s.wallet.walletTransactions, tx ∈ s'.wallet.walletTransactions
  news : ∀ tx ∈ s'.wallet.walletTransactions, tx ∈ s.wallet.walletTransactions ∨
    (∃ u dto a, call = .deposit u dto ∧ r = .ok a ∧ DepositedBy u dto tx) ∨
    tx.type ≠ .DEPOSIT ∧ (tx.type = .DEBIT →
      ∃ b ∈ s'.bets, b.userId = tx.userId ∧ tx.referenceId = some b.referenceId)
  bets : ∀ b ∈ s.bets, ∃ b' ∈ s'.bets, b.Same b'
  newBets : ∀ b' ∈ s'.bets, (∃ b ∈ s.bets, b.Same b') ∨
    ∃ u role dto a, call = .placeBet u role dto ∧ r = .ok a ∧ PlacedBy u dto b'
  deposited : ∀ u dto a, call = .deposit u dto → r = .ok a →
    ∃ tx ∈ s'.wallet.walletTransactions, DepositedBy u dto tx
  placed : ∀ u role dto a, call = .placeBet u role dto → r = .ok a →
    ∃ b ∈ s'.bets, PlacedBy u dto b
  unpaid : ∀ b ∈ s'.bets, b.status.phase ≠ .closed → s'.wallet.rowsFor b.userId .CREDIT b.id = []

theorem Traced.grow (h : Traced l s) (hg : Grows call r s s') : Traced ((call, r) :: l) s' := by
  refine ⟨fun tx htx ht => ?_, fun u dto a hmem => ?_, fun b' hb' => ?_,
    fun u role dto a hmem => ?_, fun tx htx ht => ?_, hg.unpaid⟩
  · rcases hg.news tx htx with htx | ⟨u, dto, a, rfl, rfl, hby⟩ | ⟨hne, -⟩
    · obtain ⟨u, dto, a, hmem, hby⟩ := h.deposits tx htx ht
      exact ⟨u, dto, a, List.mem_cons_of_mem _ hmem, hby⟩
    · exact ⟨u, dto, a, List.mem_cons_self, hby⟩
    · exact absurd ht hne
  · rcases List.mem_cons.mp hmem with heq | hmem
    · obtain ⟨hcall, hr⟩ := Prod.mk.inj heq
      exact hg.deposited u dto a hcall.symm hr.symm
    · obtain ⟨tx, htx, hby⟩ := h.deposited u dto a hmem
      exact ⟨tx, hg.rows tx htx, hby⟩
  · rcases hg.newBets b' hb' with ⟨b, hb, hsame⟩ | ⟨u, role, dto, a, rfl, rfl, hby⟩
    · obtain ⟨u, role, dto, a, hmem, hby⟩ := h.bets b hb
      exact ⟨u, role, dto, a, List.mem_cons_of_mem _ hmem, hby.same hsame⟩
    · exact ⟨u, role, dto, a, List.mem_cons_self, hby⟩
  · rcases List.mem_cons.mp hmem with heq | hmem
    · obtain ⟨hcall, hr⟩ := Prod.mk.inj heq
      exact hg.placed u role dto a hcall.symm hr.symm
    · obtain ⟨b, hb, hby⟩ := h.placed u role dto a hmem
      obtain ⟨b', hb', hsame⟩ := hg.bets b hb
      exact ⟨b', hb', hby.same hsame⟩
  · rcases hg.news tx htx with htx | ⟨u, dto, a, -, -, hby⟩ | ⟨-, hstake⟩
    · obtain ⟨b, hb, hu, href⟩ := h.stakes tx htx ht
      obtain ⟨b', hb', hsame⟩ := hg.bets b hb
      exact ⟨b', hb', hsame.userId.trans hu, by rw [href, hsame.referenceId]⟩
    · exact absurd (ht.symm.trans hby.type) (by decide)
    · exact hstake ht

/-- A call that leaves the rows of the ledger and the bets. -/
theorem grows_same (h : Traced l s)
    (hrows : s'.wallet.walletTransactions = s.wallet.walletTransactions) (hbets : s'.bets = s.bets)
    (hdep : ∀ u dto a, call = .deposit u dto → r = .ok a →
      ∃ tx ∈ s.wallet.walletTransactions, DepositedBy u dto tx)
    (hbet : ∀ u role dto a, call = .placeBet u role dto → r = .ok a →
      ∃ b ∈ s.bets, PlacedBy u dto b) : Grows call r s s' := by
  refine ⟨fun tx htx => hrows ▸ htx, fun tx htx => .inl (hrows ▸ htx),
    fun b hb => ⟨b, hbets ▸ hb, .refl b⟩, fun b hb => .inl ⟨b, hbets ▸ hb, .refl b⟩,
    fun u dto a hc hr => ?_, fun u role dto a hc hr => ?_, fun b hb hph => ?_⟩
  · rw [hrows]
    exact hdep u dto a hc hr
  · rw [hbets]
    exact hbet u role dto a hc hr
  · unfold WalletDb.rowsFor
    rw [hrows]
    exact h.unpaid b (hbets ▸ hb) hph

/-- The books and the rows after a call. -/
def Booked (l : api.History) (s : Store) (call : ApiCall) (r : Except Err ApiReply)
    (s' : Store) : Prop :=
  ∃ a, Means l call r a ∧ House.Step (booksOf s) a (booksOf s') ∧ Grows call r s s'

/-- What a complete run of a call shows. -/
theorem ends {i : Nat} {p : Prog ApiSig ApiReply} {Q : Except Err ApiReply → Store → Prop}
    (hp : api.Always i IsOk (Completes Q) p s)
    (h : ∃ ms, (∀ m ∈ ms, IsOk m) ∧ api.Runs i p s ms (some r) s') : Q r s' := by
  obtain ⟨ms, hms, hrun⟩ := h
  exact hp ms _ s' hms hrun r rfl

/-- A call that only wraps what its service answers. -/
theorem ends_map {α : Type} {i : Nat} {p : Prog ApiSig α} {f : α → ApiReply}
    {Q : Except Err α → Store → Prop} (hp : api.Always i IsOk (Completes Q) p s)
    (h : ∃ ms, (∀ m ∈ ms, IsOk m) ∧ api.Runs i (f <$> p) s ms (some r) s') :
    ∃ r₀, r = r₀.map f ∧ Q r₀ s' := by
  refine ends (Q := fun r s' => ∃ r₀, r = r₀.map f ∧ Q r₀ s')
    (Machine.completes_map (hp.mono fun x s₁ hx r₀ hr => ?_)) h
  exact ⟨r₀, rfl, hx r₀ hr⟩

/-- A call that throws and leaves the tables. -/
theorem booked_refused (hcall : ∀ tag payload, call ≠ .delivery tag payload) (ht : Traced l s)
    (e : Err) : Booked l s call (.error e) s :=
  ⟨.nothing, .refused hcall e, .nothing _, grows_same ht rfl rfl (fun _ _ _ _ hr => nomatch hr)
    fun _ _ _ _ _ hr => nomatch hr⟩

section Deposit

variable {u : Uuid} {dto : DepositDto}

/-- The mutation id of a deposit that was not repeated is not in the books. -/
theorem deposit_new {r : Except Err ApiReply} (ht : Traced l s)
    (hf : Fair l s (.deposit u dto) r s')
    (hno : ∀ tx ∈ s.wallet.walletTransactions, ¬ tx.Matches u dto.clientMutationId none) :
    (∀ d ∈ (booksOf s).deposits, d.key ≠ dto.clientMutationId) ∧
      ∀ w ∈ (booksOf s).wagers, w.key ≠ dto.clientMutationId := by
  constructor
  · intro d hd hkey
    obtain ⟨tx, htx, htype, href, -, -⟩ := mem_deposits.mp hd
    obtain ⟨u', dto', a, hmem, hby⟩ := ht.deposits tx htx htype
    have hsame : dto'.clientMutationId = dto.clientMutationId := by
      rw [← hkey]
      exact Option.some.inj (hby.referenceId.symm.trans href)
    have hrep := hf.keys _ a dto.clientMutationId hmem (congrArg some hsame) rfl
    cases hrep
    exact hno tx htx ⟨hby.userId, hby.referenceId, nofun⟩
  · intro w hw hkey
    obtain ⟨b, hb, rfl⟩ := List.mem_map.mp hw
    obtain ⟨u', role, dto', a, hmem, hby⟩ := ht.bets b hb
    have hsame : dto'.clientMutationId = dto.clientMutationId := hby.referenceId.symm.trans hkey
    exact nomatch hf.keys _ a dto.clientMutationId hmem (congrArg some hsame) rfl

/-- A row that `deposit` finds is that of the same request. -/
theorem deposit_found {r : Except Err ApiReply} (hR : Reached s) (ht : Traced l s)
    (hf : Fair l s (.deposit u dto) r s') {tx : WalletTransaction}
    (htx : tx ∈ s.wallet.walletTransactions) (hm : tx.Matches u dto.clientMutationId none) :
    ∃ a, (ApiCall.deposit u dto, .ok a) ∈ l ∧ DepositedBy u dto tx := by
  cases htype : tx.type with
  | DEPOSIT =>
    obtain ⟨u', dto', a, hmem, hby⟩ := ht.deposits tx htx htype
    have hsame : dto'.clientMutationId = dto.clientMutationId :=
      Option.some.inj (hby.referenceId.symm.trans hm.2.1)
    have hrep := hf.keys _ a dto.clientMutationId hmem (congrArg some hsame) rfl
    cases hrep
    exact ⟨a, hmem, hby⟩
  | DEBIT =>
    obtain ⟨b, hb, -, href⟩ := ht.stakes tx htx htype
    obtain ⟨u', role, dto', a, hmem, hby⟩ := ht.bets b hb
    have hsame : dto'.clientMutationId = dto.clientMutationId :=
      hby.referenceId.symm.trans (Option.some.inj (href.symm.trans hm.2.1))
    exact nomatch hf.keys _ a dto.clientMutationId hmem (congrArg some hsame) rfl
  | CREDIT =>
    obtain ⟨b, hb, href⟩ := hR.credits tx htx htype
    exact absurd (Option.some.inj (href.symm.trans hm.2.1)) (hf.fresh u dto rfl b hb)

/-- **`deposit` is a deposit**, once. -/
theorem booked_deposit {i : Nat} (hR : Reached s) (ht : Traced l s)
    (hf : Fair l s (.deposit u dto) r s')
    (h : ∃ ms, (∀ m ∈ ms, IsOk m) ∧
      api.Runs i (ApiCall.deposit u dto).body s ms (some r) s') :
    Booked l s (.deposit u dto) r s' := by
  obtain ⟨r₀, rfl, ⟨rfl, hfound⟩ | ⟨hno, tx, hpost, rfl⟩⟩ := ends_map (deposit_completes u dto) h
  · cases r₀ with
    | error e => exact booked_refused (by simp) ht e
    | ok a =>
      obtain ⟨tx, htx, hm, -⟩ := hfound a rfl
      obtain ⟨a', hmem, hby⟩ := deposit_found hR ht hf htx hm
      refine ⟨.nothing, .again _ hmem (.deposit u dto), .nothing _, grows_same ht rfl rfl ?_ ?_⟩
      · rintro u' dto' - heq -
        obtain ⟨rfl, rfl⟩ := ApiCall.deposit.inj heq
        exact ⟨tx, htx, hby⟩
      · exact fun u' role dto' _ heq => nomatch heq
  · have hby : DepositedBy u dto tx :=
      ⟨hpost.type, hpost.referenceId, hpost.userId, hpost.amountCents⟩
    have hbets : s'.bets = s.bets := by rw [hpost.frame]
    obtain ⟨hdeposits, hwagers⟩ := deposit_new ht hf hno
    refine ⟨_, .deposit u dto _, ?_, ?_⟩
    · rw [booksOf_deposit hpost]
      have hmin := dto.min
      exact .deposit (d := ⟨u, dto.clientMutationId, dto.amountCents⟩)
        (show (0 : ℤ) < dto.amountCents by omega) hdeposits hwagers
    · refine ⟨fun tx' htx' => ?_, fun tx' htx' => ?_, fun b hb => ⟨b, hbets ▸ hb, .refl b⟩,
        fun b hb => .inl ⟨b, hbets ▸ hb, .refl b⟩, ?_, fun _ _ _ _ heq => (nomatch heq),
        fun b hb hph => ?_⟩
      · rw [hpost.rows]
        exact List.mem_append_left _ htx'
      · rw [hpost.rows] at htx'
        rcases List.mem_append.mp htx' with htx' | htx'
        · exact .inl htx'
        · obtain rfl := List.mem_singleton.mp htx'
          exact .inr (.inl ⟨u, dto, _, rfl, rfl, hby⟩)
      · rintro u' dto' - heq -
        obtain ⟨rfl, rfl⟩ := ApiCall.deposit.inj heq
        rw [hpost.rows]
        exact ⟨tx, List.mem_append_right _ (List.mem_singleton_self tx), hby⟩
      · have hno' : ¬ tx.Matches b.userId b.id (some .CREDIT) := fun hm =>
          absurd (hpost.type.symm.trans (hm.2.2 _ rfl)) (by decide)
        rw [rowsFor_append hpost.rows, List.filter_cons_of_neg (by simpa using hno'),
          List.filter_nil, List.append_nil]
        exact ht.unpaid b (hbets ▸ hb) hph

end Deposit

section Placement

variable {u : Uuid} {role : Role} {dto : PlaceBetDto}

/-- A bet of the same mutation id is that of the same request. -/
theorem placeBet_found {r : Except Err ApiReply} (ht : Traced l s)
    (hf : Fair l s (.placeBet u role dto) r s') {b : Bet} (hb : b ∈ s.bets)
    (href : b.referenceId = dto.clientMutationId) :
    ∃ role' a, (ApiCall.placeBet u role' dto, .ok a) ∈ l ∧ PlacedBy u dto b := by
  obtain ⟨u', role', dto', a, hmem, hby⟩ := ht.bets b hb
  have hsame : dto'.clientMutationId = dto.clientMutationId := hby.referenceId.symm.trans href
  have hrep := hf.keys _ a dto.clientMutationId hmem (congrArg some hsame) rfl
  cases hrep
  exact ⟨role', a, hmem, hby⟩

/-- The wager of a new bet is offered by the rules. -/
theorem step_offer (hR : Reached s) (ht : Traced l s) (hf : Fair l s (.placeBet u role dto) r s')
    {b : Bet} (h : Places s u dto b s') : ∃ w, w.user = u ∧ w.id = b.id ∧
      w.key = dto.clientMutationId ∧ w.market = dto.marketId ∧ w.stake = dto.stakeCents ∧
      House.Step (booksOf s) (.offer w) (booksOf s') := by
  obtain ⟨w, hbooks, hid, hkey, rfl, hmarket, hstake, hphase, hpaid, hfunds, odds, hodds, hpay⟩ :=
    booksOf_place h hR.credits
  refine ⟨w, rfl, hid, hkey, hmarket, hstake, ?_⟩
  rw [hbooks]
  have hmin := dto.min
  refine .offer (hmarket ▸ hodds) (by omega) hfunds hpay hphase hpaid ?_ ?_ ?_
  · intro w' hw'
    obtain ⟨b', hb', rfl⟩ := List.mem_map.mp hw'
    rw [hid]
    exact h.ids b' hb'
  · intro d hd hdkey
    obtain ⟨tx, htx, htype, href, -, -⟩ := mem_deposits.mp hd
    obtain ⟨u', dto', a, hmem, hby⟩ := ht.deposits tx htx htype
    have hsame : dto'.clientMutationId = dto.clientMutationId := by
      rw [← hkey, ← hdkey]
      exact Option.some.inj (hby.referenceId.symm.trans href)
    exact nomatch hf.keys _ a dto.clientMutationId hmem (congrArg some hsame) rfl
  · intro w' hw'
    obtain ⟨b', hb', rfl⟩ := List.mem_map.mp hw'
    rw [hkey]
    exact h.references b' hb'

/-- The rows of a placed bet. -/
theorem grows_place (hR : Reached s) (ht : Traced l s) {b : Bet} {a : ApiReply}
    (h : Places s u dto b s') : Grows (.placeBet u role dto) (.ok a) s s' := by
  obtain ⟨market, id, now, -, -, hb⟩ := h.market
  obtain ⟨tx, s₁, hpost, hwallet⟩ := h.posts
  have hby : PlacedBy u dto b := by
    subst hb
    exact ⟨rfl, rfl, rfl, rfl⟩
  have hmem : b ∈ s'.bets := by
    rw [h.bets]
    exact List.mem_append_right _ (List.mem_singleton_self b)
  refine ⟨fun tx' htx' => ?_, fun tx' htx' => ?_, fun b' hb' => ⟨b', ?_, .refl b'⟩, fun b' hb' => ?_,
    fun _ _ _ heq => (nomatch heq), ?_, fun b' hb' hph => ?_⟩
  · rw [hwallet, hpost.rows]
    exact List.mem_append_left _ htx'
  · rw [hwallet, hpost.rows] at htx'
    rcases List.mem_append.mp htx' with htx' | htx'
    · exact .inl htx'
    · obtain rfl := List.mem_singleton.mp htx'
      refine .inr (.inr ⟨?_, fun _ => ⟨b, hmem, ?_, ?_⟩⟩)
      · rw [hpost.type]
        decide
      · rw [hby.userId, hpost.userId]
      · rw [hby.referenceId, hpost.referenceId]
  · rw [h.bets]
    exact List.mem_append_left _ hb'
  · rw [h.bets] at hb'
    rcases List.mem_append.mp hb' with hb' | hb'
    · exact .inl ⟨b', hb', .refl b'⟩
    · obtain rfl := List.mem_singleton.mp hb'
      exact .inr ⟨u, role, dto, a, rfl, rfl, hby⟩
  · rintro u' role' dto' - heq -
    obtain ⟨rfl, rfl, rfl⟩ := ApiCall.placeBet.inj heq
    exact ⟨b, hmem, hby⟩
  · have hrows : s'.wallet.rowsFor b'.userId .CREDIT b'.id =
        s.wallet.rowsFor b'.userId .CREDIT b'.id := by
      have hno' : ¬ tx.Matches b'.userId b'.id (some .CREDIT) := fun hm =>
        absurd (hpost.type.symm.trans (hm.2.2 _ rfl)) (by decide)
      rw [hwallet, rowsFor_append hpost.rows, List.filter_cons_of_neg (by simpa using hno'),
        List.filter_nil, List.append_nil]
    rw [hrows]
    rw [h.bets] at hb'
    rcases List.mem_append.mp hb' with hb' | hb'
    · exact ht.unpaid b' hb' hph
    · obtain rfl := List.mem_singleton.mp hb'
      refine List.filter_eq_nil_iff.mpr fun tx' htx' hmatch => ?_
      have hmatch : tx'.Matches b'.userId b'.id (some .CREDIT) := by simpa using hmatch
      obtain ⟨b₀, hb₀, href⟩ := hR.credits tx' htx' (hmatch.2.2 _ rfl)
      exact h.ids b₀ hb₀ (Option.some.inj (href.symm.trans hmatch.2.1))

/-- **`placeBet` offers one wager**, once. -/
theorem booked_placeBet {i : Nat} (hR : Reached s) (ht : Traced l s)
    (hf : Fair l s (.placeBet u role dto) r s')
    (h : ∃ ms, (∀ m ∈ ms, IsOk m) ∧
      api.Runs i (ApiCall.placeBet u role dto).body s ms (some r) s') :
    Booked l s (.placeBet u role dto) r s' := by
  obtain ⟨r₀, rfl, hends⟩ := ends_map (placeBet_completes u role dto hR.retries ht.stakes) h
  cases hends with
  | rejected => exact absurd rfl (hf.inserted u role dto _ rfl)
  | refused => exact booked_refused (by simp) ht _
  | @found b hb hu href =>
    obtain ⟨role', a, hmem, hby⟩ := placeBet_found ht hf hb href
    refine ⟨.nothing, .again _ hmem (.placeBet u role' role dto), .nothing _,
      grows_same ht rfl rfl ?_ ?_⟩
    · exact fun u' dto' _ heq => nomatch heq
    · rintro u' role'' dto' - heq -
      obtain ⟨rfl, -, rfl⟩ := ApiCall.placeBet.inj heq
      exact ⟨b, hb, hby⟩
  | placed hplaces =>
    obtain ⟨w, rfl, hid, hkey, hmarket, hstake, hstep⟩ := step_offer hR ht hf hplaces
    exact ⟨_, .placeBet role dto _ hid hkey hmarket hstake, hstep, grows_place hR ht hplaces⟩

end Placement

section Markets

variable {i : Nat} {id : Uuid}

/-- A call about markets is not a request with a mutation id. -/
theorem grows_market (ht : Traced l s) {market : Market} (h : WritesMarket s market s')
    (hcall : call.mutation? = none) : Grows call r s s' := by
  refine grows_same ht (by rw [h.rows]) h.bets ?_ ?_
  · rintro u dto a rfl -
    exact absurd hcall (by simp [ApiCall.mutation?])
  · rintro u role dto a rfl -
    exact absurd hcall (by simp [ApiCall.mutation?])

/-- **`createMarket` opens a market.** -/
theorem booked_createMarket {dto : CreateMarketDto} (ht : Traced l s)
    (h : ∃ ms, (∀ m ∈ ms, IsOk m) ∧ api.Runs i (ApiCall.createMarket dto).body s ms (some r) s') :
    Booked l s (.createMarket dto) r s' := by
  obtain ⟨r₀, rfl, ⟨rfl, e, rfl⟩ | ⟨market, rfl, hnew, hodds, hstatus, hw⟩⟩ :=
    ends_map (createMarket_completes dto) h
  · exact booked_refused (by simp) ht e
  refine ⟨_, .createMarket dto market.toDto, ?_, grows_market ht hw rfl⟩
  have hnone : (booksOf s).market market.id = none := by
    show Option.map _ _ = none
    rw [hnew]
    rfl
  have hmin := dto.min
  rw [booksOf_market hw, hodds, hstatus]
  exact .opens hnone (by omega)

/-- `updateStatus` changes whether a market trades. -/
theorem step_trades {status : MarketStatus} (hstatus : status ≠ .SETTLED) {market market' : Market}
    (hm : s.markets id = some market) (hopen : market.status ≠ .SETTLED) (hid : market'.id = id)
    (hodds : market'.oddsInt = market.oddsInt) (hst : market'.status = status)
    (hw : WritesMarket s market' s') :
    House.Step (booksOf s) (.trades id status.trading) (booksOf s') := by
  rw [booksOf_market hw, hid, hodds, hst]
  refine .trades (t := market.status.trading) ?_ (mt MarketStatus.trading_closed.mp hopen)
    (mt MarketStatus.trading_closed.mp hstatus)
  show Option.map _ _ = _
  rw [hm]
  rfl

/-- **`suspend` and `reopen`.** -/
theorem booked_suspend (hR : Reached s) (ht : Traced l s)
    (h : ∃ ms, (∀ m ∈ ms, IsOk m) ∧ api.Runs i (ApiCall.suspend id).body s ms (some r) s') :
    Booked l s (.suspend id) r s' := by
  obtain ⟨r₀, rfl, ⟨rfl, e, rfl⟩ | ⟨market, market', hm, hopen, hid, hodds, hst, ⟨dto, rfl⟩, hw⟩⟩ :=
    ends_map (updateStatus_completes id .SUSPENDED hR.marketIds) h
  · exact booked_refused (by simp) ht e
  · exact ⟨_, .suspend id _, step_trades (by decide) hm hopen hid hodds hst hw,
      grows_market ht hw rfl⟩

theorem booked_reopen (hR : Reached s) (ht : Traced l s)
    (h : ∃ ms, (∀ m ∈ ms, IsOk m) ∧ api.Runs i (ApiCall.reopen id).body s ms (some r) s') :
    Booked l s (.reopen id) r s' := by
  obtain ⟨r₀, rfl, ⟨rfl, e, rfl⟩ | ⟨market, market', hm, hopen, hid, hodds, hst, ⟨dto, rfl⟩, hw⟩⟩ :=
    ends_map (updateStatus_completes id .OPEN hR.marketIds) h
  · exact booked_refused (by simp) ht e
  · exact ⟨_, .reopen id _, step_trades (by decide) hm hopen hid hodds hst hw,
      grows_market ht hw rfl⟩

/-- A market that is not settled can be. -/
theorem settleable_of_books (hR : Reached s) (ht : Traced l s) (hsound : (booksOf s).Sound)
    {market : Market} (hm : s.markets id = some market) (hopen : market.status ≠ .SETTLED)
    (hfits : ∀ u, fitsInteger (s.wallet.balanceOf u + payoutSum u (s.betsIn id .ACCEPTED)) = true) :
    s.Settleable id := by
  have hmem : ∀ b ∈ s.betsIn id .ACCEPTED, b ∈ s.bets ∧ b.status = .ACCEPTED := fun b hb =>
    ⟨(Recovery.mem_betsIn.mp hb).1, (Recovery.mem_betsIn.mp hb).2.2⟩
  have hpos : ∀ b ∈ s.betsIn id .ACCEPTED, 0 ≤ b.payoutCents := fun b hb =>
    (hsound.amounts _ (List.mem_map_of_mem (hmem b hb).1)).2
  refine ⟨hR.retries.betIds, hR.marketIds, ⟨market, hm, hopen⟩, fun b hb => ?_, fun b hb => ?_,
    fun u bets hbets => ?_⟩
  · exact hR.payouts b (hmem b hb).1
  · refine ht.unpaid b (hmem b hb).1 ?_
    rw [(hmem b hb).2]
    decide
  · refine balances_fit hpos ?_ (hfits u) hbets
    have hcovered : 0 ≤ s.wallet.balanceOf u := hsound.covered u
    have hsum : 0 ≤ payoutSum u (s.betsIn id .ACCEPTED) := List.sum_nonneg fun a ha => by
      obtain ⟨b, hb, rfl⟩ := List.mem_map.mp ha
      exact hpos b (List.mem_of_mem_filter hb)
    have hfit := hfits u
    simp only [fitsInteger, Bool.and_eq_true, decide_eq_true_eq] at hfit ⊢
    omega

/-- The rows after a settlement. -/
theorem grows_settle (ht : Traced l s) {result : MarketResult} (hs : s.Settleable id)
    (h : s.SettledAs id result s') : Grows (.settle id result) r s s' := by
  obtain ⟨paid, txs, -, htxs, hrows⟩ := h.rows
  have hsame : ∀ b b', Store.Settles id b b' → b.Same b' := by
    intro b b' hb
    unfold Store.Settles at hb
    split at hb
    · exact hb.1
    · rw [hb]
      exact .refl b
  have horigin : ∀ b' ∈ s'.bets, ∃ b ∈ s.bets, Store.Settles id b b' := by
    intro b' hb'
    obtain ⟨n, hn, rfl⟩ := List.mem_iff_getElem.mp hb'
    have hn' : n < s.bets.length := h.bets.length_eq ▸ hn
    exact ⟨s.bets[n], List.getElem_mem hn', h.bets.get hn' hn⟩
  refine ⟨fun tx htx => ?_, fun tx htx => ?_, fun b hb => ?_, fun b' hb' => ?_,
    fun _ _ _ heq => (nomatch heq), fun _ _ _ _ heq => (nomatch heq), fun b' hb' hph => ?_⟩
  · rw [hrows]
    exact List.mem_append_left _ htx
  · rw [hrows] at htx
    rcases List.mem_append.mp htx with htx | htx
    · exact .inl htx
    · obtain ⟨n, hn, rfl⟩ := List.mem_iff_getElem.mp htx
      have hn' : n < paid.length := htxs.length_eq ▸ hn
      have hrow : CreditRow paid[n] txs[n] := htxs.get hn' hn
      refine .inr (.inr ⟨?_, fun hd => ?_⟩)
      · rw [hrow.type]
        decide
      · exact absurd (hrow.type.symm.trans hd) (by decide)
  · obtain ⟨n, hn, rfl⟩ := List.mem_iff_getElem.mp hb
    have hn' : n < s'.bets.length := h.bets.length_eq ▸ hn
    exact ⟨s'.bets[n], List.getElem_mem hn', hsame _ _ (h.bets.get hn hn')⟩
  · obtain ⟨b, hb, hsettles⟩ := horigin b' hb'
    exact .inl ⟨b, hb, hsame b b' hsettles⟩
  · obtain ⟨b, hb, hsettles⟩ := horigin b' hb'
    unfold Store.Settles at hsettles
    by_cases hacc : b.marketId = id ∧ b.status = .ACCEPTED
    · rw [if_pos hacc] at hsettles
      rw [hsettles.2] at hph
      exact absurd rfl hph
    · rw [if_neg hacc] at hsettles
      rw [hsettles] at hph ⊢
      rw [rowsFor_settled h hs.betIds hb fun hp =>
        hacc (Recovery.mem_betsIn.mp (Recovery.payable_subset hp)).2]
      exact ht.unpaid b hb hph

/-- **`settle` settles a market**, once. -/
theorem booked_settle {result : MarketResult} (hR : Reached s) (ht : Traced l s)
    (hsound : (booksOf s).Sound) (hf : Fair l s (.settle id result) r s')
    (h : ∃ ms, (∀ m ∈ ms, IsOk m) ∧ api.Runs i (ApiCall.settle id result).body s ms (some r) s') :
    Booked l s (.settle id result) r s' := by
  obtain ⟨r₀, rfl, ⟨rfl, e, rfl⟩ | ⟨market, dto, hm, hopen, rfl, hsettled⟩⟩ :=
    ends_map (settle_completes id result fun market hm hopen =>
      settleable_of_books hR ht hsound hm hopen (hf.payouts id result rfl)) h
  · exact booked_refused (by simp) ht e
  have hs := settleable_of_books hR ht hsound hm hopen (hf.payouts id result rfl)
  obtain ⟨odds, t, hmarket, htrading, hbooks⟩ := booksOf_settle hsettled hs
  refine ⟨_, .settle id result _, ?_, grows_settle ht hs hsettled⟩
  rw [hbooks]
  exact .settle hmarket htrading _

end Markets

/-- **A delivery accepts a wager.** -/
theorem booked_delivery {i tag : Nat} {payload : BetPlacementPayload} (hR : Reached s)
    (ht : Traced l s) {s₁ : Store} (hstart : (ApiCall.delivery tag payload).start s = some s₁)
    (h : ∃ ms, (∀ m ∈ ms, IsOk m) ∧
      api.Runs i (ApiCall.delivery tag payload).body s₁ ms (some r) s') :
    Booked l s (.delivery tag payload) r s' := by
  have haccepts₁ : Accepts s₁ payload.betId s' :=
    ends (Q := fun _ s' => Accepts s₁ payload.betId s')
      (Machine.completes_bind (delivery_completes tag payload)
        (fun _ _ h => Machine.completes_ret h) fun _ _ h => h) h
  have haccepts : Accepts s payload.betId s' := by
    rcases start_cases hstart with ⟨p, -, -, rfl⟩ | ⟨-, rfl⟩
    · exact haccepts₁.imp (fun h => ⟨⟨h.1.rows, h.1.balances, h.1.markets, h.1.bets⟩, h.2⟩)
        fun h => h
    · exact haccepts₁
  have hgrows : Grows (.delivery tag payload) r s s' := by
    rcases haccepts with ⟨hsame, -⟩ | ⟨b, now, hb, hst, hwallet, -, hbets⟩
    · exact grows_same ht hsame.rows hsame.bets (fun _ _ _ heq => (nomatch heq))
        fun _ _ _ _ heq => (nomatch heq)
    have hmap : ∀ b' ∈ s'.bets, ∃ b₀ ∈ s.bets, b₀.Same b' ∧
        (b'.status.phase ≠ .closed → b₀.status.phase ≠ .closed) := by
      intro b' hb'
      rw [hbets] at hb'
      obtain ⟨b₀, hb₀, rfl⟩ := List.mem_map.mp hb'
      refine ⟨b₀, hb₀, ?_, fun hph => ?_⟩
      · split
        · rfl
        · exact .refl b₀
      · by_cases hid : b₀.id = payload.betId
        · have hsame : b₀ = b := Option.some.inj
            ((hR.retries.betIds.bet_of_mem hb₀).symm.trans (hid ▸ hb))
          rw [hsame, hst]
          decide
        · rwa [if_neg hid] at hph
    refine ⟨fun tx htx => hwallet ▸ htx, fun tx htx => .inl (hwallet ▸ htx), fun b₀ hb₀ => ?_,
      fun b' hb' => ?_, fun _ _ _ heq => (nomatch heq), fun _ _ _ _ heq => (nomatch heq),
      fun b' hb' hph => ?_⟩
    · rw [hbets]
      refine ⟨_, List.mem_map_of_mem hb₀, ?_⟩
      split
      · rfl
      · exact .refl b₀
    · obtain ⟨b₀, hb₀, hsame, -⟩ := hmap b' hb'
      exact .inl ⟨b₀, hb₀, hsame⟩
    · obtain ⟨b₀, hb₀, hsame, hphase⟩ := hmap b' hb'
      rw [hwallet, hsame.userId, hsame.id]
      exact ht.unpaid b₀ hb₀ (hphase hph)
  refine ⟨_, .delivered tag payload r, ?_, hgrows⟩
  rw [booksOf_accept haccepts hR.retries.betIds]
  exact .accept _ _

/-- **Every call is an act.** -/
theorem booked_call (h : api.Serial IsOk Fair .empty l s) (ht : Traced l s)
    (hsound : (booksOf s).Sound) {s₁ : Store} (hstart : call.start s = some s₁)
    (hrun : ∃ ms, (∀ m ∈ ms, IsOk m) ∧ api.Runs l.length call.body s₁ ms (some r) s')
    (hf : Fair l s call r s') : Booked l s call r s' := by
  have hR := reached_of_serial h
  cases call with
  | delivery tag payload => exact booked_delivery hR ht hstart hrun
  | getBalance u =>
    obtain rfl := Option.some.inj hstart
    obtain ⟨r₀, rfl, hsame⟩ := ends_map (getBalance_completes u) hrun
    have hstep : House.Step (booksOf s) .nothing (booksOf s') := by
      rw [booksOf_congr hsame]
      exact .nothing _
    have hgrows : Grows (.getBalance u) (r₀.map .balance) s s' :=
      grows_same ht hsame.rows hsame.bets (fun _ _ _ heq => (nomatch heq))
        fun _ _ _ _ heq => (nomatch heq)
    cases r₀ with
    | error e => exact ⟨_, .refused (by simp) e, hstep, hgrows⟩
    | ok a => exact ⟨_, .getBalance u _, hstep, hgrows⟩
  | deposit u dto =>
    obtain rfl := Option.some.inj hstart
    exact booked_deposit hR ht hf hrun
  | placeBet u role dto =>
    obtain rfl := Option.some.inj hstart
    exact booked_placeBet hR ht hf hrun
  | createMarket dto =>
    obtain rfl := Option.some.inj hstart
    exact booked_createMarket ht hrun
  | suspend id =>
    obtain rfl := Option.some.inj hstart
    exact booked_suspend hR ht hrun
  | reopen id =>
    obtain rfl := Option.some.inj hstart
    exact booked_reopen hR ht hrun
  | settle id result =>
    obtain rfl := Option.some.inj hstart
    exact booked_settle hR ht hsound hf hrun

/-- What a history leaves. -/
def Kept (l : api.History) (s : Store) : Prop :=
  (∃ acts, BookedAs l acts ∧ House.Run acts (booksOf s)) ∧ Traced l s

theorem kept_of_serial (h : api.Serial IsOk Fair .empty l s) : Kept l s := by
  refine h.keeps ⟨⟨[], .nil, ?_⟩, ?_⟩ (fun l s v s' hk hv => ?_)
    fun l s s₁ s' call r hl hk hstart hrun hf => ?_
  · rw [booksOf_empty]
    exact .empty
  · constructor <;> simp [Store.empty, WalletDb.empty]
  · obtain ⟨⟨acts, hacts, hbooks⟩, ht⟩ := hk
    have hsame := sameBooks_of_tables (env_tables hv)
    refine ⟨⟨acts, hacts, booksOf_congr hsame ▸ hbooks⟩, ?_⟩
    exact ⟨hsame.rows ▸ ht.deposits, hsame.rows ▸ ht.deposited, hsame.bets ▸ ht.bets,
      hsame.bets ▸ ht.placed, hsame.rows ▸ hsame.bets ▸ ht.stakes, fun b hb hph => by
        unfold WalletDb.rowsFor
        rw [hsame.rows]
        exact ht.unpaid b (hsame.bets ▸ hb) hph⟩
  · obtain ⟨⟨acts, hacts, hbooks⟩, ht⟩ := hk
    obtain ⟨a, hmeans, hstep, hgrows⟩ := booked_call hl ht hbooks.sound hstart hrun hf
    exact ⟨⟨a :: acts, .cons hacts hmeans, .step hbooks hstep⟩, ht.grow hgrows⟩

/-- The entries of the books are the requests that succeeded. -/
structure Entered (l : api.History) (books : BetBooks) : Prop where
  deposits : ∀ d, d ∈ books.deposits ↔ ∃ dto a, (ApiCall.deposit d.user dto, .ok a) ∈ l ∧
    dto.clientMutationId = d.key ∧ dto.amountCents = d.amount
  wagers : ∀ u m key stake,
    (∃ w ∈ books.wagers, w.user = u ∧ w.market = m ∧ w.key = key ∧ w.stake = stake) ↔
      ∃ role dto a, (ApiCall.placeBet u role dto, .ok a) ∈ l ∧ dto.marketId = m ∧
        dto.clientMutationId = key ∧ dto.stakeCents = stake

theorem Traced.entered (h : Traced l s) : Entered l (booksOf s) := by
  refine ⟨fun d => ⟨fun hd => ?_, ?_⟩, fun u m key stake => ⟨?_, ?_⟩⟩
  · obtain ⟨tx, htx, htype, href, hu, ha⟩ := mem_deposits.mp hd
    obtain ⟨u, dto, a, hmem, hby⟩ := h.deposits tx htx htype
    obtain rfl : d.user = u := hu.symm.trans hby.userId
    exact ⟨dto, a, hmem, Option.some.inj (hby.referenceId.symm.trans href),
      hby.amountCents.symm.trans ha⟩
  · rintro ⟨dto, a, hmem, hkey, ha⟩
    obtain ⟨tx, htx, hby⟩ := h.deposited _ dto a hmem
    exact mem_deposits.mpr ⟨tx, htx, hby.type, hkey ▸ hby.referenceId, hby.userId,
      hby.amountCents.trans ha⟩
  · rintro ⟨w, hw, rfl, rfl, rfl, rfl⟩
    obtain ⟨b, hb, rfl⟩ := List.mem_map.mp hw
    obtain ⟨u, role, dto, a, hmem, hby⟩ := h.bets b hb
    obtain rfl := hby.userId
    exact ⟨role, dto, a, hmem, hby.marketId.symm, hby.referenceId.symm, hby.stakeCents.symm⟩
  · rintro ⟨role, dto, a, hmem, rfl, rfl, rfl⟩
    obtain ⟨b, hb, hby⟩ := h.placed u role dto a hmem
    exact ⟨_, List.mem_map_of_mem hb, hby.userId, hby.marketId, hby.referenceId, hby.stakeCents⟩

end Bookmaking

open Bookmaking

/-- **The API is a bookmaker.** While its calls run one after the other and nothing fails, each of
them is one act by the rules of the house; the entries of the books are the requests that succeeded,
and the books are sound. -/
theorem api_is_a_bookmaker {l : api.History} {s : Store}
    (h : api.Serial IsOk Fair .empty l s) :
    (∃ acts, BookedAs l acts ∧ House.Run acts (booksOf s)) ∧ Entered l (booksOf s) ∧
      (booksOf s).Sound := by
  obtain ⟨⟨acts, hacts, hrun⟩, ht⟩ := kept_of_serial h
  exact ⟨⟨acts, hacts, hrun⟩, ht.entered, hrun.sound⟩

/-! ## A small history -/

namespace Bookmaking

variable {l : api.History} {s s₁ s' : Store} {call : ApiCall} {r : Except Err ApiReply}

/-- A call that runs with the same choice throughout. -/
theorem serial_finish (call : ApiCall) (ch : ApiChoice) (h : api.Serial IsOk Fair .empty l s)
    (hstart : call.start s = some s₁)
    (hrun : api.finish l.length call.body s₁ (fun _ => .ok ch) = some (r, s'))
    (hf : Fair l s call r s') : api.Serial IsOk Fair .empty ((call, r) :: l) s' := by
  obtain ⟨n, hn⟩ := Machine.Runs.of_finish hrun
  refine .call h hstart (fun m hm => ?_) hn hf
  obtain ⟨k, -, rfl⟩ := List.mem_map.mp hm
  exact ⟨ch, rfl⟩

/-- A call whose mutation id, if it has one, is new. -/
theorem fair_new {keys : List (Option Uuid)} {a : ApiReply}
    (hl : l.map (fun x => x.1.mutation?) = keys)
    (hnew : ∀ key, call.mutation? = some key → some key ∉ keys)
    (hfresh : ∀ u dto, call = .deposit u dto → s.bets = [])
    (hfits : ∀ id result, call = .settle id result → ∀ u,
      fitsInteger (s.wallet.balanceOf u + payoutSum u (s.betsIn id .ACCEPTED)) = true) :
    Fair l s call (.ok a) s' := by
  refine ⟨fun call' a' key hmem hkey hkey' => ?_, fun u dto hc b hb => ?_,
    fun _ _ _ _ _ hr => (nomatch hr), hfits⟩
  · refine absurd ?_ (hnew key hkey')
    rw [← hl, ← hkey]
    exact List.mem_map_of_mem hmem
  · rw [hfresh u dto hc] at hb
    exact (nomatch hb)

/-- What user 7 can have after the bet. -/
theorem fits_of_tables {w₀ w : Wallet} {b : Bet}
    (hw : s.wallet.wallets = Function.update (Function.update (fun _ => none) 7 w₀) 7 w)
    (hb : s.betsIn 50 .ACCEPTED = [b]) (hu : b.userId = 7)
    (hfits : fitsInteger (w.balanceCents + b.payoutCents) = true) (u : Uuid) :
    fitsInteger (s.wallet.balanceOf u + payoutSum u (s.betsIn 50 .ACCEPTED)) = true := by
  rw [hb, payoutSum_singleton, hu]
  unfold WalletDb.balanceOf
  rw [hw]
  by_cases h : u = 7
  · subst h
    simpa using hfits
  · rw [Function.update_of_ne h, Function.update_of_ne h, if_neg (Ne.symm h)]
    rfl

end Bookmaking

/-- A market opens, user 7 deposits and bets on it, the bet is accepted, and it wins. -/
theorem api_is_a_bookmaker_day : ∃ l s, api.Serial IsOk Fair .empty l s ∧ l.length = 5 ∧
    (∃ acts, BookedAs l acts ∧ House.Run acts (booksOf s)) ∧ Entered l (booksOf s) ∧
      (booksOf s).Sound := by
  have h₀ : api.Serial IsOk Fair .empty [] .empty := .init
  have h₁ := serial_finish (.createMarket ⟨9, "Man City to win", 240, by decide, by decide⟩)
    { fresh := 50 } h₀ rfl rfl (fair_new rfl nofun nofun nofun)
  have h₂ := serial_finish (.deposit 7 tenDollars) {} h₁ rfl rfl
    (fair_new rfl (by decide) (fun _ _ _ => rfl) nofun)
  have h₃ := serial_finish (bet100 2) { fresh := 60 } h₂ rfl rfl
    (fair_new rfl (by rintro key ⟨⟩; decide) nofun nofun)
  have h₄ := serial_finish (.delivery 0 ⟨60, 7, 50, 240, 100, 240⟩) {} h₃ rfl rfl
    (fair_new rfl nofun nofun nofun)
  have h₅ := serial_finish (.settle 50 .WIN) { fresh := 2 } h₄ rfl rfl
    (fair_new rfl nofun nofun (by
      rintro id result ⟨⟩
      exact fits_of_tables rfl rfl rfl rfl))
  exact ⟨_, _, h₅, rfl, api_is_a_bookmaker h₅⟩

end BoltBet
