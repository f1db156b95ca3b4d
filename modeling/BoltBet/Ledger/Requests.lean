import BoltBet.Market.Notices
import Mathlib.Data.List.Forall2
import Mathlib.Data.List.Nodup

/-!
# Money moves on request

Every ledger row is what one started call asks for (`ApiCall.Asks`): a deposit, a stake, or the
payout of a bet of a market settled with WIN. No call accounts for two rows of one reference.

* `along_body`: a call moves money as it asks, and a reference once, if the rows it found have ids
  of their own.
* **`api_ledger_requested`**: the ledger of every run, row by row.
-/

namespace BoltBet

open Async Api

/-- **The movements of money a call asks for**: of whom, of which type, how much, under which
reference. `Found m b`: the bet `b` is one of the market `m`. -/
inductive ApiCall.Asks (Found : Uuid → Bet → Prop) :
    ApiCall → Uuid → TransactionType → Int → Option Uuid → Prop
  | deposit (u : Uuid) (dto : DepositDto) :
    Asks Found (.deposit u dto) u .DEPOSIT dto.amountCents (some dto.clientMutationId)
  | stake (u : Uuid) (role : Role) (dto : PlaceBetDto) (h : role ≠ .ADMIN) :
    Asks Found (.placeBet u role dto) u .DEBIT dto.stakeCents (some dto.clientMutationId)
  | payout (m : Uuid) (b : Bet) (h : Found m b) :
    Asks Found (.settle m .WIN) b.userId .CREDIT b.payoutCents (some b.id)

/-- The bets of a market that are in the table. -/
def Store.BetIn (s : Store) (m : Uuid) (b : Bet) : Prop := b ∈ s.bets ∧ b.marketId = m

/-- The call asks for this row. -/
def ApiCall.AsksFor (call : ApiCall) (s : Store) (tx : WalletTransaction) : Prop :=
  call.Asks s.BetIn tx.userId tx.type tx.amountCents tx.referenceId

/-- The reference of a movement of money. -/
def ApiOp.moves? : ApiOp → Option (Option Uuid)
  | .wallet (.applyTransaction _ _ _ ref _) => some ref
  | _ => none

/-- What is asked for stays so while bets change nothing but their status. -/
theorem ApiCall.Asks.imp {Found Found' : Uuid → Bet → Prop} {call : ApiCall} {u : Uuid}
    {t : TransactionType} {a : Int} {ref : Option Uuid} (h : call.Asks Found u t a ref)
    (hfound : ∀ m b, Found m b → ∃ b', Found' m b' ∧ b.Same b') : call.Asks Found' u t a ref := by
  cases h with
  | deposit u dto => exact .deposit u dto
  | stake u role dto hrole => exact .stake u role dto hrole
  | payout m b hb =>
    obtain ⟨b', hb', hsame⟩ := hfound m b hb
    have hpaid : ApiCall.Asks Found' _ _ _ _ _ := .payout m b' hb'
    have hcents : b'.payoutCents = b.payoutCents := hsame.congr Bet.payoutCents fun _ _ _ => rfl
    rwa [hsame.id, hsame.userId, hcents] at hpaid

theorem Store.BetIn.later {w w' : World api} (h : Later w w') {m : Uuid} {b : Bet}
    (hb : w.state.BetIn m b) : ∃ b', w'.state.BetIn m b' ∧ b.Same b' := by
  obtain ⟨b', hb', hsame⟩ := h.bets b hb.1
  have hmarket : b'.marketId = b.marketId := hsame.congr Bet.marketId fun _ _ _ => rfl
  exact ⟨b', ⟨hb', hmarket.trans hb.2⟩, hsame⟩

namespace Requests

/-! ## What a call has seen when it moves money -/

/-- The call found this bet among the accepted ones of the market. -/
def Found (l : List (Seen ApiSig)) (m : Uuid) (b : Bet) : Prop :=
  ∃ rows, Saw l (ApiOp.betFind m .ACCEPTED) rows ∧ b ∈ rows

/-- The rows that the call found have ids of their own. -/
def OwnIds (l : List (Seen ApiSig)) : Prop :=
  ∀ m rows, Saw l (ApiOp.betFind m .ACCEPTED) rows → (rows.map Bet.id).Nodup

/-- Money moves as the call asks, and for the first time under its reference. -/
def Grounds (call : ApiCall) (l : List (Seen ApiSig)) (o : ApiOp) : Prop :=
  ∀ u t a ref d, o = .wallet (.applyTransaction u t a ref d) →
    call.Asks (Found l) u t a ref ∧ (OwnIds l → ∀ x ∈ l, x.op.moves? ≠ some ref)

/-- An operation that moves no money. -/
def Still (o : ApiOp) : Prop := o.moves? = none

variable {call : ApiCall} {l l₀ : List (Seen ApiSig)} {α β : Type}

theorem Still.grounds {o : ApiOp} (h : Still o) (l : List (Seen ApiSig)) : Grounds call l o := by
  rintro u t a ref d rfl
  exact absurd h (by simp [Still, ApiOp.moves?])

/-- A part that moves no money. -/
theorem along_still {p : Prog ApiSig α} (hp : p.All Still) :
    p.Along (Grounds call) (fun l' _ => l <:+ l' ∧ ∀ x ∈ l', x ∈ l ∨ Still x.op) l :=
  Prog.Along.of_all (fun l _ h => h.grounds l) hp

/-- After a part that moves no money, nothing was moved under a reference that was new. -/
theorem fresh_of_still {ref : Option Uuid} {l' : List (Seen ApiSig)}
    (hl : ∀ x ∈ l, x.op.moves? ≠ some ref) (h : ∀ x ∈ l', x ∈ l ∨ Still x.op) :
    ∀ x ∈ l', x.op.moves? ≠ some ref := by
  intro x hx
  rcases h x hx with hx | hx
  · exact hl x hx
  · exact fun hm => absurd (hx.symm.trans hm) (by simp)

/-- The shape of `deposit`, `debit` and `credit`. -/
theorem along_lookup_then {u ref : Uuid} {t : TransactionType} {t' : Option TransactionType}
    {a : Int} {desc : String} {f : WalletTransaction → TransactionResponseDto}
    (hasks : ∀ l', l <:+ l' → call.Asks (Found l') u t a (some ref))
    (hnew : OwnIds l → ∀ x ∈ l, x.op.moves? ≠ some (some ref)) :
    (Api.wallet (do
      match ← WalletService.txFindOne u ref t' with
      | some existing => return f existing
      | none => WalletService.applyTransaction u t a (some ref) desc)).Along
      (Grounds call) (fun l' _ => l <:+ l') l := by
  have hquery : Still (.wallet (.query (.txFindOne u ref t'))) := rfl
  rw [wallet_bind, WalletService.txFindOne, wallet_perform]
  refine Prog.along_perform_bind (hquery.grounds l) (fun existing => ?_)
    fun _ => List.suffix_cons _ _
  cases existing with
  | some tx => exact List.suffix_cons _ _
  | none =>
    rw [WalletService.applyTransaction, wallet_perform]
    refine Prog.along_perform (S := ApiSig) (fun u' t'' a' ref' d' ho => ?_) fun r =>
      (List.suffix_cons _ _).trans (List.suffix_cons _ _)
    obtain ⟨rfl, rfl, rfl, rfl, rfl⟩ := WalletOp.applyTransaction.inj (ApiOp.wallet.inj ho)
    refine ⟨hasks _ (List.suffix_cons _ _), fun hids x hx => ?_⟩
    rcases List.mem_cons.mp hx with rfl | hx
    · simp [ApiOp.moves?]
    · exact hnew (fun m rows hsaw => hids m rows hsaw.cons) x hx

section Stake

variable {u : Uuid} {role : Role} {dto : PlaceBetDto}

theorem along_placeNewBet (h : role ≠ .ADMIN) (hl : ∀ x ∈ l, Still x.op) :
    (BettingService.placeNewBet u dto).Along (Grounds (.placeBet u role dto))
      (fun _ _ => True) l := by
  have hnew : ∀ x ∈ l, x.op.moves? ≠ some (some dto.clientMutationId) :=
    fun x hx hm => absurd ((hl x hx).symm.trans hm) (by simp)
  refine Prog.Along.bind (along_still (all_assertMarketOpen (P := Still) rfl)) (fun m l₁ h₁ => ?_)
    fun _ _ _ => trivial
  refine Prog.Along.bind (along_lookup_then (fun _ _ => .stake u role dto h)
    fun _ => fresh_of_still hnew h₁.2) (fun _ l₂ _ => ?_) fun _ _ _ => trivial
  refine (along_still (l := l₂) ?_).mono fun _ _ _ => trivial
  refine Prog.All.bind (all_op (P := Still) rfl) fun bet => ?_
  refine Prog.All.bind (all_op (P := Still) rfl) fun _ => ?_
  exact Prog.All.bind (all_op (P := Still) rfl) fun _ => trivial

theorem along_lookupOrPlace (h : role ≠ .ADMIN) (hl : ∀ x ∈ l, Still x.op) :
    (BettingService.lookupOrPlace u dto).Along (Grounds (.placeBet u role dto))
      (fun _ _ => True) l := by
  have hfind : Still (.betFindByReference u dto.clientMutationId) := rfl
  refine Prog.along_perform_bind (hfind.grounds l) (fun existing => ?_) fun _ => trivial
  cases existing with
  | some b => trivial
  | none => exact along_placeNewBet h (List.forall_mem_cons.mpr ⟨hfind, hl⟩)

/-- The stake of a bet moves once, and not for an administrator. -/
theorem along_placeBet : (BettingService.placeBet u role dto).Along (Grounds (.placeBet u role dto))
    (fun _ _ => True) [] := by
  have hget : Still (.redisGet u dto.clientMutationId) := rfl
  unfold BettingService.placeBet
  split
  · trivial
  · rename_i hrole
    refine Prog.along_perform_bind (hget.grounds []) (fun cached => ?_) fun _ => trivial
    cases cached with
    | none => exact along_lookupOrPlace hrole (List.forall_mem_cons.mpr ⟨hget, by simp⟩)
    | some id =>
      have hfind : Still (.betFindById id) := rfl
      refine Prog.along_perform_bind (hfind.grounds _) (fun bet => ?_) fun _ => trivial
      cases bet with
      | some b => trivial
      | none =>
        exact along_lookupOrPlace hrole (List.forall_mem_cons.mpr
          ⟨hfind, List.forall_mem_cons.mpr ⟨hget, by simp⟩⟩)

end Stake

section Payout

variable {m : Uuid} {result : MarketResult} {market : Market} {bet : Bet}

/-- The references that one round of the loop of `settle` may use. -/
def Round (bet : Bet) (o : ApiOp) : Prop := Still o ∨ o.moves? = some (some bet.id)

/-- One round moves money for its bet only. -/
theorem round_of_settleBet : (MarketService.settleBet market result bet).All (Round bet) :=
  all_settleBet (fun _ => .inl rfl) (fun _ _ => .inr rfl) (.inl rfl) (.inl rfl)

/-- One round: its bet is paid for the first time. -/
theorem along_settleBet (hfound : Found l m bet)
    (hnew : OwnIds l → ∀ x ∈ l, x.op.moves? ≠ some (some bet.id)) :
    (MarketService.settleBet market result bet).Along (Grounds (.settle m result))
      (fun _ _ => True) l := by
  have hrest : (do
      betUpdate bet.id .SETTLED
      publishNotification (.BET_SETTLED bet.userId bet.id market.name result
        (if result = MarketResult.WIN then bet.payoutCents else 0))).All Still :=
    Prog.All.bind (all_op (P := Still) rfl) fun _ => all_op (P := Still) rfl
  have hlater : ∀ l', l <:+ l' → Found l' m bet := by
    rintro l' hl
    obtain ⟨rows, hsaw, hb⟩ := hfound
    exact ⟨rows, hsaw.later hl, hb⟩
  refine Prog.Along.tryCatch (Q := fun _ _ => True) ?_ (fun _ _ _ => trivial) fun _ _ _ => trivial
  refine Prog.Along.bind (Q := fun _ _ => True) ?_ (fun _ l₁ _ => ?_) fun _ _ _ => trivial
  · cases result with
    | LOSS => trivial
    | WIN =>
      exact Prog.Along.bind (along_lookup_then (fun l' hl => .payout m bet (hlater l' hl)) hnew)
        (fun _ _ _ => trivial) fun _ _ _ => trivial
  · exact (along_still (l := l₁) hrest).mono fun _ _ _ => trivial

/-- **The loop of `settle`** pays every bet once, if the rows have ids of their own. -/
theorem along_settleBets {rows : List Bet} (hsaw : Saw l (ApiOp.betFind m .ACCEPTED) rows)
    {bs : List Bet} (hbs : bs ⊆ rows) (hnew : OwnIds l →
      (bs.map Bet.id).Nodup ∧ ∀ b ∈ bs, ∀ x ∈ l, x.op.moves? ≠ some (some b.id)) :
    (bs.forM (MarketService.settleBet market result)).Along (Grounds (.settle m result))
      (fun _ _ => True) l := by
  induction bs generalizing l with
  | nil => trivial
  | cons b bs ih =>
    have hround : (MarketService.settleBet market result b).Along (Grounds (.settle m result))
        (fun l' _ => True ∧ l <:+ l' ∧ ∀ x ∈ l', x ∈ l ∨ Round b x.op) l :=
      (along_settleBet ⟨rows, hsaw, hbs List.mem_cons_self⟩
        fun hids => (hnew hids).2 b List.mem_cons_self).recall round_of_settleBet
    rw [Prog.forM_cons]
    refine hround.bind (fun _ l' h => ?_) fun _ _ _ => trivial
    obtain ⟨-, hle, hmem⟩ := h
    refine ih (hsaw.later hle) (fun x hx => hbs (List.mem_cons_of_mem b hx)) fun hids => ?_
    obtain ⟨hnodup, hfresh⟩ := hnew fun m rows hs => hids m rows (hs.later hle)
    rw [List.map_cons, List.nodup_cons] at hnodup
    refine ⟨hnodup.2, fun b' hb' x hx hmove => ?_⟩
    -- what was moved before this round, what moves nothing, or the bet of this round
    rcases hmem x hx with hx | hx | hx
    · exact hfresh b' (List.mem_cons_of_mem b hb') x hx hmove
    · exact absurd (hx.symm.trans hmove) (by simp)
    · have hid : b.id = b'.id := by simpa using hx.symm.trans hmove
      exact hnodup.1 (hid ▸ List.mem_map_of_mem hb')

theorem along_settle : (MarketService.settle m result).Along (Grounds (.settle m result))
    (fun _ _ => True) [] := by
  refine Prog.Along.bind (along_still (all_getMarketById (P := Still) rfl)) (fun market l₁ h₁ => ?_)
    fun _ _ _ => trivial
  split
  · trivial
  · have hfind : Still (.betFind m .ACCEPTED) := rfl
    refine Prog.along_perform_bind (hfind.grounds l₁) (fun rows => ?_) fun _ => trivial
    have hstill : ∀ x ∈ (⟨.betFind m .ACCEPTED, .ok rows⟩ : Seen ApiSig) :: l₁, Still x.op :=
      List.forall_mem_cons.mpr ⟨hfind, fun x hx => (h₁.2 x hx).resolve_left (by simp)⟩
    refine Prog.Along.bind (along_settleBets saw_head (List.Subset.refl rows) fun hids =>
      ⟨hids m rows saw_head, fun b _ x hx hmove => ?_⟩) (fun _ l₂ _ => ?_) fun _ _ _ => trivial
    · exact absurd ((hstill x hx).symm.trans hmove) (by simp)
    · refine (along_still (l := l₂) ?_).mono fun _ _ _ => trivial
      refine Prog.All.bind (all_op (P := Still) rfl) fun saved => ?_
      exact Prog.All.bind (all_op (P := Still) rfl) fun _ => trivial

end Payout

/-- **A call moves money as it asks, and under each reference once.** -/
theorem along_body (call : ApiCall) : call.body.Along (Grounds call) (fun _ _ => True) [] := by
  cases call with
  | deposit u dto =>
    exact (along_lookup_then (fun _ _ => .deposit u dto) fun _ => by simp).map
      (fun _ _ _ => trivial) fun _ _ _ => trivial
  | placeBet u role dto => exact along_placeBet.map (fun _ _ _ => trivial) fun _ _ _ => trivial
  | settle m result => exact along_settle.map (fun _ _ _ => trivial) fun _ _ _ => trivial
  | _ =>
    refine (along_still ((body_footprint _).mono fun o ho => ?_)).mono fun _ _ _ => trivial
    cases ho <;> rfl

/-! ## Every run -/

variable {i : Nat} {c c' : Config api}

/-- A bet that a call found is in the table. -/
theorem Found.betIn {c₀ : Config api} (hl : api.Recalls c₀ i call l c) {m : Uuid} {b : Bet}
    (h : Found l m b) : ∃ b', c.state.BetIn m b' ∧ b.Same b' := by
  obtain ⟨rows, hsaw, hb⟩ := h
  obtain ⟨c₁, c₂, mode, -, -, -, hx, h₂⟩ := hl.ran _ hsaw
  obtain ⟨hperm, hstate⟩ := api_betFind_ok hx
  obtain ⟨hmem, hmarket⟩ := List.mem_filter.mp (hperm.mem_iff.mp hb)
  have hin : c₂.state.BetIn m b := ⟨hstate ▸ hmem, by simp_all⟩
  exact hin.later (Later.reach h₂)

/-- The rows that a call finds have ids of their own. -/
theorem ownIds (hl : api.Recalls (api.init .empty) i call l c) : OwnIds l := by
  intro m rows hsaw
  obtain ⟨c₁, c₂, mode, h₁, -, -, hx, -⟩ := hl.ran _ hsaw
  obtain ⟨hperm, -⟩ := api_betFind_ok hx
  have hids : ((c₁.state.betsIn m .ACCEPTED).map Bet.id).Nodup :=
    (Notices.betIds h₁).sublist (List.Sublist.map _ List.filter_sublist)
  exact (hperm.map Bet.id).nodup_iff.mpr hids

/-- The call asked for this row, and the operation moved its money. -/
def Leaves (s : Store) (x : Entry api) (tx : WalletTransaction) : Prop :=
  x.op.moves? = some tx.referenceId ∧ x.call.AsksFor s tx

/-- The movements behind the ledger, one for each row. -/
structure Behind (w : World api) (xs : List (Entry api)) : Prop where
  ran : xs ⊆ w.trace
  rows : List.Forall₂ (Leaves w.state) xs w.state.wallet.walletTransactions
  once : (xs.map fun x => (x.tid, x.op.moves?)).Nodup

variable {w w' : World api} {xs : List (Entry api)} {x : Entry api} {tx : WalletTransaction}

theorem Leaves.later (h : Later w w') (hx : Leaves w.state x tx) : Leaves w'.state x tx :=
  ⟨hx.1, hx.2.imp fun _ _ hb => hb.later h⟩

/-- Nothing was posted. -/
theorem Behind.later (hxs : Behind w xs) (h : Later w w')
    (hrows : w'.state.wallet.walletTransactions = w.state.wallet.walletTransactions) :
    Behind w' xs where
  ran := List.Subset.trans hxs.ran h.trace.subset
  rows := hrows ▸ hxs.rows.imp fun _ _ hx => hx.later h
  once := hxs.once

/-- One row was posted. -/
theorem Behind.post (hxs : Behind w xs) (h : Later w w')
    (hrows : w'.state.wallet.walletTransactions = w.state.wallet.walletTransactions ++ [tx])
    (hx : x ∈ w'.trace) (hleaves : Leaves w'.state x tx)
    (hnew : ∀ y ∈ w.trace, y.tid = x.tid → y.op.moves? ≠ x.op.moves?) :
    Behind w' (xs ++ [x]) where
  ran := List.append_subset.mpr
    ⟨List.Subset.trans hxs.ran h.trace.subset, List.cons_subset.mpr ⟨hx, List.nil_subset _⟩⟩
  rows := hrows ▸ List.rel_append (hxs.rows.imp fun _ _ hx => hx.later h) (.cons hleaves .nil)
  once := by
    rw [List.map_append, List.map_singleton]
    refine hxs.once.append (List.nodup_singleton _) fun p hp hp' => ?_
    obtain ⟨y, hy, rfl⟩ := List.mem_map.mp hp
    obtain ⟨htid, hmove⟩ := Prod.mk.inj (List.mem_singleton.mp hp')
    exact hnew y (hxs.ran hy) htid hmove

/-- **One operation** posts nothing, or one row that its call asked for. -/
theorem behind_exec {o : ApiOp} {r : Except Err o.Res} (hc : api.Reachable (api.init .empty) c)
    (hw : c.Waits i call o) (hx : api.Exec i call o c.toWorld r w') (hxs : Behind c.toWorld xs) :
    ∃ xs', Behind w' xs' := by
  have hlater : Later c.toWorld w' := Later.exec hx
  obtain ⟨took, htr, ⟨-, ch, a, hs⟩ | ⟨-, hs⟩⟩ := api_exec_cases hx
  · rcases (Store.exec_effect hs).wallet_cases with hsame | ⟨o', r', rfl, hdb⟩
    · exact ⟨xs, hxs.later hlater (congrArg _ hsame)⟩
    · rcases WalletDb.exec_rows hdb with ⟨hrows, -⟩ |
        ⟨u, t, a, ref, d, tx, rfl, -, rfl, rfl, rfl, rfl, hrows⟩
      · exact ⟨xs, hxs.later hlater hrows⟩
      · obtain ⟨l, hl, hG⟩ := Machine.along_waits along_body hc hw
        obtain ⟨hasks, hnew⟩ := hG _ _ _ _ _ rfl
        refine ⟨_, hxs.post hlater hrows (htr ▸ List.mem_cons_self) ⟨rfl, ?_⟩ ?_⟩
        · refine hasks.imp fun m b hb => ?_
          obtain ⟨b', hb', hsame⟩ := Found.betIn hl hb
          obtain ⟨b'', hb'', hsame'⟩ := hb'.later hlater
          exact ⟨b'', hb'', hsame.trans hsame'⟩
        · -- the thread would have seen its first movement under this reference
          intro y hy htid hmove
          obtain ⟨z, hz, hzy⟩ := hl.own y hy htid
          exact hnew (ownIds hl) z hz (hzy ▸ hmove)
  · exact ⟨xs, hxs.later hlater (by rw [hs])⟩

/-- **Every ledger has its movements behind it.** -/
theorem behind (hc : api.Reachable (api.init .empty) c) : ∃ xs, Behind c.toWorld xs := by
  refine hc.follow (J := fun w : World api => ∃ xs, Behind w xs)
    ⟨[], List.nil_subset _, .nil, List.nodup_nil⟩ (fun call s s' l hst ⟨xs, hxs⟩ => ?_)
    (fun v s s' l hv ⟨xs, hxs⟩ => ?_)
    fun {c c' i m call o r} hc _ hw _ hx ⟨xs, hxs⟩ => behind_exec hc hw hx hxs
  · have hsame := start_tables hst
    exact ⟨xs, hxs.later (Later.same hsame) (congrArg WalletDb.walletTransactions hsame.wallet)⟩
  · have hsame := env_tables hv
    exact ⟨xs, hxs.later (Later.same hsame) (congrArg WalletDb.walletTransactions hsame.wallet)⟩

/-- Every row has a movement behind it. -/
theorem Behind.leaves (h : Behind w xs) (htx : tx ∈ w.state.wallet.walletTransactions) :
    ∃ x ∈ w.trace, Leaves w.state x tx := by
  have hmem : ∀ {s : Store} {xs : List (Entry api)} {rows : List WalletTransaction},
      List.Forall₂ (Leaves s) xs rows → tx ∈ rows → ∃ x ∈ xs, Leaves s x tx := by
    intro s xs rows hrows htx
    induction hrows with
    | nil => exact absurd htx (by simp)
    | @cons x _ xs _ hx _ ih =>
      rcases List.mem_cons.mp htx with rfl | htx
      · exact ⟨x, List.mem_cons_self, hx⟩
      · obtain ⟨y, hy, hleaves⟩ := ih htx
        exact ⟨y, List.mem_cons_of_mem x hy, hleaves⟩
  obtain ⟨x, hx, hleaves⟩ := hmem h.rows htx
  exact ⟨x, h.ran hx, hleaves⟩

/-- The threads and references of the movements are those of the rows. -/
theorem keys_eq {s : Store} {rows : List WalletTransaction}
    (h : List.Forall₂ (Leaves s) xs rows) :
    (List.zipWith (fun x tx => (x.tid, tx.referenceId)) xs rows).map (Prod.map id some) =
      xs.map fun x => (x.tid, x.op.moves?) := by
  induction h with
  | nil => rfl
  | cons hx _ ih =>
    simp only [List.zipWith_cons_cons, List.map_cons, ih, hx.1, Prod.map_apply, id_eq]

end Requests

open Requests in
/-- **The ledger was asked for, row by row**: each row by a call that was started, and no two rows
of one reference by the same call. -/
theorem api_ledger_requested {c : Config api} (h : api.Reachable (api.init .empty) c) :
    ∃ askers : List (Nat × ApiCall),
      List.Forall₂ (fun p tx => c.Started p.1 p.2 ∧ p.2.AsksFor c.state tx) askers
        c.state.wallet.walletTransactions ∧
      (List.zipWith (fun p tx => (p.1, tx.referenceId)) askers
        c.state.wallet.walletTransactions).Nodup := by
  obtain ⟨xs, hxs⟩ := behind h
  refine ⟨xs.map fun x => (x.tid, x.call), ?_, ?_⟩
  · rw [List.forall₂_map_left_iff, List.forall₂_and_left]
    exact ⟨fun x hx => Machine.entry_started h x (hxs.ran hx), hxs.rows.imp fun _ _ hx => hx.2⟩
  · have hnodup := hxs.once
    rw [← keys_eq hxs.rows] at hnodup
    rw [List.zipWith_map_left]
    exact hnodup.of_map _

/-- A deposit, a stake, and the payout of the bet. -/
def paidOnce : List (Event api) :=
  openMarket ++
  .spawn 2 (bet100 2) :: proceed 2 5 ++ .run 2 (.ok { fresh := 100 }) :: proceed 2 2 ++
  .spawn 3 (.delivery 0 ⟨100, 7, 50, 240, 100, 240⟩) :: proceed 3 3 ++
  .spawn 4 (.settle 50 .WIN) :: proceed 4 8

/-- Three rows, each of which was asked for. -/
theorem api_ledger_requested_paid : ∃ c, api.replay (api.init .empty) paidOnce = some c ∧
    c.state.wallet.walletTransactions.map WalletTransaction.type = [.DEPOSIT, .DEBIT, .CREDIT] ∧
    ∃ askers : List (Nat × ApiCall),
      List.Forall₂ (fun p tx => c.Started p.1 p.2 ∧ p.2.AsksFor c.state tx) askers
        c.state.wallet.walletTransactions ∧
      (List.zipWith (fun p tx => (p.1, tx.referenceId)) askers
        c.state.wallet.walletTransactions).Nodup := by
  obtain ⟨c, hr, htypes⟩ : ∃ c, api.replay (api.init .empty) paidOnce = some c ∧
      c.state.wallet.walletTransactions.map WalletTransaction.type =
        [.DEPOSIT, .DEBIT, .CREDIT] := ⟨_, rfl, rfl⟩
  exact ⟨c, hr, htypes, api_ledger_requested (.of_replay .init hr)⟩

end BoltBet
