import BoltBet.Api.Machine
import BoltBet.Wallet.Ledger

/-!
# What one operation does to the tables

`Store.Effect` says once what an operation can do (`exec_effect`). From it, table by table:

* `Effect.wallet_cases`, `Effect.txs_grow`: ledger rows are only appended, by the wallet service.
* `Effect.bets_cases`: a bet is inserted once and then only changes its status; `Store.BetsKept`.
* `Effect.markets_cases`, `Effect.notifications_cases`, `Effect.betPlacement_cases`.
* `start_cases`, `env_cases`: what starting a call does, and Redis and RabbitMQ by themselves.
* `start_tables`, `env_tables`: starting a call, and the steps of Redis and RabbitMQ, touch none
  of these tables (`SameTables`).
-/

namespace BoltBet

open Async

namespace WalletDb

/-- Ledger rows are only appended. -/
theorem exec_txs_grow {ch : WalletChoice} {o : WalletOp} {db db' : WalletDb}
    {r : Except Err o.Res} (h : exec ch o db = (r, db')) :
    db.walletTransactions <+: db'.walletTransactions := by
  cases o with
  | query q =>
    rcases execQuery_cases h with rfl | ⟨u, -, rfl⟩
    · exact List.prefix_rfl
    · exact List.prefix_rfl
  | applyTransaction u t a ref d =>
    cases r with
    | error e =>
      obtain rfl := applyAtomic_error h
      exact List.prefix_rfl
    | ok dto =>
      obtain ⟨b, tx, w, -, -, -, -, -, -, rfl⟩ := applyAtomic_ok h
      exact List.prefix_append ..

/-- A failed operation changed nothing. -/
theorem exec_error {ch : WalletChoice} {o : WalletOp} {db db' : WalletDb} {e : Err}
    (h : exec ch o db = (.error e, db')) : db' = db := by
  cases o with
  | query q =>
    cases q with
    | txFindOne u ref t | walletReplicaFindOne u => exact (Prod.mk.inj h).2.symm
    | walletCreate u =>
      simp only [exec, execQuery] at h
      split at h
      · exact (Prod.mk.inj h).2.symm
      · exact absurd (Prod.mk.inj h).1 (by simp)
  | applyTransaction u t a ref d => exact applyAtomic_error h

end WalletDb

namespace Store

/-- **The effects of an operation.** -/
inductive Effect (ch : ApiChoice) (s : Store) : ApiOp → Store → Prop
  | none (o : ApiOp) : Effect ch s o s
  | wallet (o : WalletOp) (r : Except Err o.Res) (db : WalletDb)
      (h : WalletDb.exec ch.toWalletChoice o s.wallet = (r, db)) :
      Effect ch s (.wallet o) { s with wallet := db }
  | redisSet (u m b : Uuid) : Effect ch s (.redisSet u m b) (s.setIdempotency u m (some b))
  | betSave (d : BetDraft) (h : s.rejectsBet ch.fresh d = Option.none) :
      Effect ch s (.betSave d) (s.addBet (d.row ch.fresh ch.now))
  | betUpdate (id : Uuid) (st : BetStatus) :
      Effect ch s (.betUpdate id st) (s.setStatus ch.now id st)
  | marketCreate (d : MarketDraft) (h : s.markets ch.fresh = Option.none) :
      Effect ch s (.marketCreate d) (s.setMarket (d.row ch.fresh ch.now))
  | marketSave (m : Market) :
      Effect ch s (.marketSave m) (s.setMarket (s.savedMarket ch.now m))
  | publishBetPlacement (p : BetPlacementPayload) : Effect ch s (.publishBetPlacement p)
      { s with betPlacement := s.betPlacement ++ [p] }
  | publishNotification (n : NotificationPayload) : Effect ch s (.publishNotification n)
      { s with notifications := s.notifications ++ [n] }
  | ack (tag : Nat) : Effect ch s (.ack tag) { s with unacked := s.unacked.filter (·.1 ≠ tag) }
  | nack (tag : Nat) : Effect ch s (.nack tag) { s with
      unacked := s.unacked.filter (·.1 ≠ tag)
      deadLetter := s.deadLetter ++ (s.unacked.filter (·.1 = tag)).map Prod.snd }

variable {ch : ApiChoice} {o : ApiOp} {s s' : Store} {r : Except Err o.Res}

theorem exec_effect (h : s.exec ch o = (r, s')) : Effect ch s o s' := by
  cases o with
  | wallet o =>
    obtain ⟨-, rfl⟩ := Prod.mk.inj h
    exact .wallet o _ _ rfl
  | betSave d =>
    simp only [exec] at h
    split at h
    · obtain ⟨-, rfl⟩ := Prod.mk.inj h
      exact .none _
    · rename_i hr
      obtain ⟨-, rfl⟩ := Prod.mk.inj h
      exact .betSave d hr
  | marketCreate d =>
    simp only [exec] at h
    split at h
    · obtain ⟨-, rfl⟩ := Prod.mk.inj h
      exact .none _
    · split at h
      · obtain ⟨-, rfl⟩ := Prod.mk.inj h
        exact .none _
      · rename_i hm
        obtain ⟨-, rfl⟩ := Prod.mk.inj h
        exact .marketCreate d (by simpa using hm)
  | redisGet u m | betFindById id | betFindByReference u m | betFind m st | marketFindOne id =>
    obtain ⟨-, rfl⟩ := Prod.mk.inj h
    exact .none _
  | redisSet u m b =>
    obtain ⟨-, rfl⟩ := Prod.mk.inj h
    exact .redisSet u m b
  | betUpdate id st =>
    obtain ⟨-, rfl⟩ := Prod.mk.inj h
    exact .betUpdate id st
  | marketSave m =>
    obtain ⟨-, rfl⟩ := Prod.mk.inj h
    exact .marketSave m
  | publishBetPlacement p =>
    obtain ⟨-, rfl⟩ := Prod.mk.inj h
    exact .publishBetPlacement p
  | publishNotification n =>
    obtain ⟨-, rfl⟩ := Prod.mk.inj h
    exact .publishNotification n
  | ack tag =>
    obtain ⟨-, rfl⟩ := Prod.mk.inj h
    exact .ack tag
  | nack tag =>
    obtain ⟨-, rfl⟩ := Prod.mk.inj h
    exact .nack tag

/-- A failed operation changed nothing. -/
theorem exec_error {e : Err} (h : s.exec ch o = (.error e, s')) : s' = s := by
  cases o with
  | wallet o =>
    obtain ⟨he, rfl⟩ := Prod.mk.inj h
    have hdb : (WalletDb.exec ch.toWalletChoice o s.wallet).2 = s.wallet :=
      WalletDb.exec_error (Prod.ext he rfl)
    rw [hdb]
  | betSave d =>
    simp only [exec] at h
    split at h
    · exact (Prod.mk.inj h).2.symm
    · exact absurd (Prod.mk.inj h).1 (by simp)
  | marketCreate d =>
    simp only [exec] at h
    split at h
    · exact (Prod.mk.inj h).2.symm
    · split at h
      · exact (Prod.mk.inj h).2.symm
      · exact absurd (Prod.mk.inj h).1 (by simp)
  | _ => exact absurd (Prod.mk.inj h).1 (by simp)

/-! ## Table by table -/

theorem Effect.wallet_cases (h : Effect ch s o s') :
    s'.wallet = s.wallet ∨ ∃ o' r', o = .wallet o' ∧
      WalletDb.exec ch.toWalletChoice o' s.wallet = (r', s'.wallet) := by
  cases h with
  | wallet o r db hx => exact .inr ⟨o, r, rfl, hx⟩
  | _ => exact .inl rfl

/-- Ledger rows are only appended. -/
theorem Effect.txs_grow (h : Effect ch s o s') :
    s.wallet.walletTransactions <+: s'.wallet.walletTransactions := by
  rcases h.wallet_cases with hw | ⟨o', r', -, hx⟩
  · rewrite [hw]
    exact List.prefix_rfl
  · exact WalletDb.exec_txs_grow hx

theorem Effect.bets_cases (h : Effect ch s o s') :
    s'.bets = s.bets ∨
    (∃ d, o = .betSave d ∧ s.rejectsBet ch.fresh d = Option.none ∧
      s'.bets = s.bets ++ [d.row ch.fresh ch.now]) ∨
    ∃ id st, o = .betUpdate id st ∧ s'.bets = (s.setStatus ch.now id st).bets := by
  cases h with
  | betSave d hr => exact .inr (.inl ⟨d, rfl, hr, rfl⟩)
  | betUpdate id st => exact .inr (.inr ⟨id, st, rfl, rfl⟩)
  | _ => exact .inl rfl

theorem Effect.markets_cases (h : Effect ch s o s') :
    s'.markets = s.markets ∨
    (∃ d, o = .marketCreate d ∧ s.markets ch.fresh = Option.none ∧
      s'.markets = (s.setMarket (d.row ch.fresh ch.now)).markets) ∨
    ∃ m, o = .marketSave m ∧ s'.markets = (s.setMarket (s.savedMarket ch.now m)).markets := by
  cases h with
  | marketCreate d hm => exact .inr (.inl ⟨d, rfl, hm, rfl⟩)
  | marketSave m => exact .inr (.inr ⟨m, rfl, rfl⟩)
  | _ => exact .inl rfl

/-- The status of a market. -/
def marketStatus (s : Store) (id : Uuid) : Option MarketStatus :=
  (s.markets id).map Market.status

theorem savedMarket_id (s : Store) (now : Nat) (m : Market) : (s.savedMarket now m).id = m.id := by
  unfold savedMarket
  split
  · exact Market.save_id ..
  · rfl

theorem savedMarket_status (s : Store) (now : Nat) (m : Market) :
    (s.savedMarket now m).status = m.status := by
  unfold savedMarket
  split
  · exact Market.save_status ..
  · rfl

theorem marketStatus_setMarket (s : Store) (m : Market) (id : Uuid) :
    (s.setMarket m).marketStatus id = if id = m.id then some m.status else s.marketStatus id := by
  unfold marketStatus setMarket
  by_cases h : id = m.id
  · subst h
    simp
  · simp [h]

/-- The statuses after a `marketSave`. -/
theorem marketStatus_save (s : Store) (now : Nat) (m : Market) (id : Uuid) :
    (s.setMarket (s.savedMarket now m)).marketStatus id =
      if id = m.id then some m.status else s.marketStatus id := by
  rw [marketStatus_setMarket, savedMarket_id, savedMarket_status]

theorem Effect.marketStatus_cases (h : Effect ch s o s') (id : Uuid) :
    s'.marketStatus id = s.marketStatus id ∨
    (∃ d, o = .marketCreate d ∧ s.marketStatus id = Option.none ∧
      s'.marketStatus id = some d.status) ∨
    ∃ m, o = .marketSave m ∧ m.id = id ∧ s'.marketStatus id = some m.status := by
  rcases h.markets_cases with he | ⟨d, rfl, hn, he⟩ | ⟨m, rfl, he⟩
  · refine .inl ?_
    unfold marketStatus
    rw [he]
  · have hst : s'.marketStatus id = (s.setMarket (d.row ch.fresh ch.now)).marketStatus id := by
      unfold marketStatus
      rw [he]
    rw [marketStatus_setMarket] at hst
    by_cases hid : id = ch.fresh
    · subst hid
      refine .inr (.inl ⟨d, rfl, ?_, hst.trans (if_pos rfl)⟩)
      unfold marketStatus
      rw [hn]
      rfl
    · exact .inl (hst.trans (if_neg hid))
  · have hst : s'.marketStatus id = (s.setMarket (s.savedMarket ch.now m)).marketStatus id := by
      unfold marketStatus
      rw [he]
    rw [marketStatus_save] at hst
    by_cases hid : id = m.id
    · exact .inr (.inr ⟨m, rfl, hid.symm, hst.trans (if_pos hid)⟩)
    · exact .inl (hst.trans (if_neg hid))

theorem Effect.notifications_cases (h : Effect ch s o s') :
    s'.notifications = s.notifications ∨
    ∃ n, o = .publishNotification n ∧ s'.notifications = s.notifications ++ [n] := by
  cases h with
  | publishNotification n => exact .inr ⟨n, rfl, rfl⟩
  | _ => exact .inl rfl

theorem Effect.betPlacement_cases (h : Effect ch s o s') :
    s'.betPlacement = s.betPlacement ∨
    ∃ p, o = .publishBetPlacement p ∧ s'.betPlacement = s.betPlacement ++ [p] := by
  cases h with
  | publishBetPlacement p => exact .inr ⟨p, rfl, rfl⟩
  | _ => exact .inl rfl

theorem Effect.idempotency_cases (h : Effect ch s o s') :
    s'.idempotency = s.idempotency ∨ ∃ u m id, o = .redisSet u m id ∧
      s'.idempotency = (s.setIdempotency u m (some id)).idempotency := by
  cases h with
  | redisSet u m id => exact .inr ⟨u, m, id, rfl, rfl⟩
  | _ => exact .inl rfl

/-! ## The history of a bet -/

theorem mem_setStatus {now : Nat} {id : Uuid} {st : BetStatus} {b' : Bet} :
    b' ∈ (s.setStatus now id st).bets ↔
      ∃ b ∈ s.bets, b' = if b.id = id then { b with status := st, updatedAt := now } else b := by
  simp only [setStatus, List.mem_map, eq_comm]

/-- Every bet there is was there, or has just been inserted. -/
theorem Effect.bet_before (h : Effect ch s o s') {b' : Bet} (hb : b' ∈ s'.bets) :
    (∃ b ∈ s.bets, b.Same b') ∨ ∃ d, o = .betSave d ∧ s.rejectsBet ch.fresh d = Option.none ∧
      b' = d.row ch.fresh ch.now := by
  rcases h.bets_cases with he | ⟨d, rfl, hr, he⟩ | ⟨id, st, -, he⟩
  · exact .inl ⟨b', he ▸ hb, .refl b'⟩
  · rw [he, List.mem_append, List.mem_singleton] at hb
    rcases hb with hb | rfl
    · exact .inl ⟨b', hb, .refl b'⟩
    · exact .inr ⟨d, rfl, hr, rfl⟩
  · rw [he, mem_setStatus] at hb
    obtain ⟨b, hb, rfl⟩ := hb
    refine .inl ⟨b, hb, ?_⟩
    split <;> rfl

/-- No bet disappears. -/
theorem Effect.bet_after (h : Effect ch s o s') {b : Bet} (hb : b ∈ s.bets) :
    ∃ b' ∈ s'.bets, b.Same b' := by
  rcases h.bets_cases with he | ⟨d, -, -, he⟩ | ⟨id, st, -, he⟩
  · exact ⟨b, he ▸ hb, .refl b⟩
  · exact ⟨b, he ▸ List.mem_append_left _ hb, .refl b⟩
  · refine ⟨_, he ▸ mem_setStatus.mpr ⟨b, hb, rfl⟩, ?_⟩
    split <;> rfl

/-- The status of a bet. -/
def betStatus (s : Store) (id : Uuid) : Option BetStatus := (s.bet id).map Bet.status

theorem bet_setStatus (s : Store) (now : Nat) (id id' : Uuid) (st : BetStatus) :
    (s.setStatus now id st).bet id' =
      (s.bet id').map fun b =>
        if b.id = id then { b with status := st, updatedAt := now } else b := by
  unfold bet setStatus
  rw [List.find?_map]
  congr 2
  funext b
  simp only [Function.comp]
  split <;> rfl

theorem bet_id {s : Store} {id : Uuid} {b : Bet} (h : s.bet id = some b) : b.id = id := by
  have := List.find?_some h
  simpa using this

theorem bet_mem {s : Store} {id : Uuid} {b : Bet} (h : s.bet id = some b) : b ∈ s.bets :=
  List.mem_of_find?_eq_some h

theorem betOf_some {s : Store} {u m : Uuid} {b : Bet} (h : s.betOf u m = some b) :
    b ∈ s.bets ∧ b.userId = u ∧ b.referenceId = m := by
  have hb := List.find?_some h
  exact ⟨List.mem_of_find?_eq_some h, by simpa using hb⟩

theorem betStatus_setStatus (s : Store) (now : Nat) (id id' : Uuid) (st : BetStatus) :
    (s.setStatus now id st).betStatus id' =
      if id' = id then (s.betStatus id').map fun _ => st else s.betStatus id' := by
  unfold betStatus
  rw [bet_setStatus]
  cases hb : s.bet id' with
  | none => simp
  | some b =>
    obtain rfl := bet_id hb
    by_cases h : b.id = id
    · simp [h]
    · simp [h]

theorem betStatus_addBet (s : Store) (b : Bet) (id : Uuid) :
    (s.addBet b).betStatus id =
      (s.betStatus id <|> if b.id = id then some b.status else Option.none) := by
  unfold betStatus bet addBet
  rw [List.find?_append]
  cases hb : s.bets.find? (fun b => decide (b.id = id)) with
  | some b' => rfl
  | none =>
    by_cases h : b.id = id
    · simp [h]
    · simp [h]

/-- A status stays, is that of a new bet, or was updated. -/
theorem Effect.betStatus_cases (h : Effect ch s o s') (id : Uuid) :
    s'.betStatus id = s.betStatus id ∨
    (∃ d, o = .betSave d ∧ s.betStatus id = Option.none ∧ s'.betStatus id = some d.status) ∨
    ∃ st st', o = .betUpdate id st ∧ s.betStatus id = some st' ∧ s'.betStatus id = some st := by
  have hcongr : ∀ s₁ : Store, s'.bets = s₁.bets → s'.betStatus id = s₁.betStatus id := by
    intro s₁ he
    unfold betStatus bet
    rw [he]
  rcases h.bets_cases with he | ⟨d, rfl, -, he⟩ | ⟨id', st, rfl, he⟩
  · exact .inl (hcongr s he)
  · have hst := hcongr (s.addBet (d.row ch.fresh ch.now)) he
    rw [betStatus_addBet] at hst
    cases hb : s.betStatus id with
    | some st => exact .inl (by rw [hst, hb]; rfl)
    | none =>
      rw [hb] at hst
      by_cases hid : (d.row ch.fresh ch.now).id = id
      · exact .inr (.inl ⟨d, rfl, rfl, by rw [hst, if_pos hid]; rfl⟩)
      · exact .inl (by rw [hst, if_neg hid]; rfl)
  · have hst := hcongr _ he
    rw [betStatus_setStatus] at hst
    by_cases hid : id = id'
    · subst hid
      rw [if_pos rfl] at hst
      cases hb : s.betStatus id with
      | none => exact .inl (by rw [hst, hb]; rfl)
      | some st' => exact .inr (.inr ⟨st, st', rfl, rfl, by rw [hst, hb]; rfl⟩)
    · exact .inl (by rw [hst, if_neg hid])

/-- The ids of bets are unique. -/
def BetIds (s : Store) : Prop := (s.bets.map Bet.id).Nodup

/-- With unique ids the bet of an id is the one with it. -/
theorem BetIds.bet_of_mem (h : s.BetIds) {b : Bet} (hb : b ∈ s.bets) : s.bet b.id = some b := by
  have hlist : ∀ l : List Bet, (l.map Bet.id).Nodup → b ∈ l →
      l.find? (fun b' => decide (b'.id = b.id)) = some b := by
    intro l
    induction l with
    | nil => exact fun _ hb => absurd hb (by simp)
    | cons b₀ bs ih =>
      intro hn hb
      obtain ⟨hnot, hn⟩ := List.nodup_cons.mp hn
      rcases List.mem_cons.mp hb with rfl | hb
      · simp
      · have hne : b₀.id ≠ b.id := fun he => hnot (he ▸ List.mem_map_of_mem hb)
        rw [List.find?_cons_of_neg (by simpa using hne)]
        exact ih hn hb
  exact hlist s.bets h hb

/-- Postgres rejects the row, or it is appended. -/
theorem exec_betSave (s : Store) (ch : ApiChoice) (d : BetDraft) :
    (∃ err, s.rejectsBet ch.fresh d = some err ∧ s.exec ch (.betSave d) = (.error err, s)) ∨
    s.rejectsBet ch.fresh d = Option.none ∧ s.exec ch (.betSave d) =
      (.ok (d.row ch.fresh ch.now), s.addBet (d.row ch.fresh ch.now)) := by
  cases hrej : s.rejectsBet ch.fresh d with
  | some err => exact .inl ⟨err, rfl, by simp only [exec, hrej]⟩
  | none => exact .inr ⟨rfl, by simp only [exec, hrej]⟩

theorem exec_betSave_ok {d : BetDraft} {b : Bet} (h : s.exec ch (.betSave d) = (.ok b, s')) :
    s.rejectsBet ch.fresh d = Option.none ∧ b = d.row ch.fresh ch.now ∧ s' = s.addBet b := by
  rcases s.exec_betSave ch d with ⟨err, -, hx⟩ | ⟨hrej, hx⟩
  · exact absurd (hx.symm.trans h) (by simp)
  · obtain ⟨hb, hs⟩ := Prod.mk.inj (h.symm.trans hx)
    obtain rfl := Except.ok.inj hb
    exact ⟨hrej, rfl, hs⟩

/-- What Postgres checks of a row. -/
theorem rejectsBet_eq_none {id : Uuid} {d : BetDraft} (h : s.rejectsBet id d = Option.none) :
    fitsInteger d.payoutCents = true ∧ (∀ b ∈ s.bets, b.id ≠ id) ∧
      ∀ b ∈ s.bets, b.referenceId ≠ d.referenceId := by
  unfold rejectsBet at h
  split at h
  · exact absurd h (by simp)
  · rename_i hfits
    simp only [Bool.not_eq_true', Bool.not_eq_false, Bool.and_eq_true] at hfits
    split at h
    · exact absurd h (by simp)
    · rename_i hid
      split at h
      · exact absurd h (by simp)
      · rename_i href
        exact ⟨hfits.2, by simpa using hid, by simpa using href⟩

theorem rejectsBet_id {id : Uuid} {d : BetDraft} (h : s.rejectsBet id d = Option.none) :
    ∀ b ∈ s.bets, b.id ≠ id := (rejectsBet_eq_none h).2.1

theorem rejectsBet_reference {id : Uuid} {d : BetDraft} (h : s.rejectsBet id d = Option.none) :
    ∀ b ∈ s.bets, b.referenceId ≠ d.referenceId := (rejectsBet_eq_none h).2.2

theorem rejectsBet_payout {id : Uuid} {d : BetDraft} (h : s.rejectsBet id d = Option.none) :
    fitsInteger d.payoutCents = true := (rejectsBet_eq_none h).1

/-- A column that no update writes and every insert checks stays unique. -/
theorem Effect.nodup_bets {f : Bet → Uuid}
    (hf : ∀ b st now, f { b with status := st, updatedAt := now } = f b)
    (hnew : ∀ d, s.rejectsBet ch.fresh d = Option.none →
      ∀ b ∈ s.bets, f b ≠ f (d.row ch.fresh ch.now))
    (h : Effect ch s o s') (hs : (s.bets.map f).Nodup) : (s'.bets.map f).Nodup := by
  rcases h.bets_cases with he | ⟨d, rfl, hr, he⟩ | ⟨id', st, rfl, he⟩
  · rwa [he]
  · rw [he, List.map_append]
    refine List.nodup_append.mpr ⟨hs, by simp, ?_⟩
    rintro x hx _ hx' rfl
    obtain ⟨b, hb, rfl⟩ := List.mem_map.mp hx
    exact hnew d hr b hb (List.mem_singleton.mp hx')
  · have hmap : (s.setStatus ch.now id' st).bets.map f = s.bets.map f := by
      unfold setStatus
      rw [List.map_map]
      refine List.map_congr_left fun b _ => ?_
      simp only [Function.comp]
      split
      · exact hf b st ch.now
      · rfl
    rwa [he, hmap]

theorem Effect.betIds (h : Effect ch s o s') (hs : s.BetIds) : s'.BetIds :=
  h.nodup_bets (fun _ _ _ => rfl) (fun _ hr => rejectsBet_id hr) hs

/-- The mutation ids of bets are unique. -/
def BetReferences (s : Store) : Prop := (s.bets.map Bet.referenceId).Nodup

theorem Effect.betReferences (h : Effect ch s o s') (hs : s.BetReferences) : s'.BetReferences :=
  h.nodup_bets (fun _ _ _ => rfl) (fun _ hr => rejectsBet_reference hr) hs

/-- Every market is stored under its id. -/
def MarketIds (s : Store) : Prop := ∀ id m, s.markets id = some m → m.id = id

theorem MarketIds.effect (hs : s.MarketIds) (h : Effect ch s o s') : s'.MarketIds := by
  have hset : ∀ m, (s.setMarket m).MarketIds := by
    intro m id m' hm
    by_cases hid : id = m.id
    · subst hid
      obtain rfl : m = m' := by simpa [setMarket] using hm
      rfl
    · exact hs id m' (by simpa [setMarket, hid] using hm)
  intro id m hm
  rcases h.markets_cases with he | ⟨d, -, -, he⟩ | ⟨m', -, he⟩
  · exact hs id m (he ▸ hm)
  · exact hset _ id m (he ▸ hm)
  · exact hset _ id m (he ▸ hm)

/-! ## Steps without an operation -/

/-- The wallet tables, markets, bets and notifications are the same. -/
structure SameTables (s s' : Store) : Prop where
  wallet : s'.wallet = s.wallet
  markets : s'.markets = s.markets
  bets : s'.bets = s.bets
  notifications : s'.notifications = s.notifications

theorem SameTables.betStatus {s s' : Store} (h : s.SameTables s') (id : Uuid) :
    s'.betStatus id = s.betStatus id := by
  unfold Store.betStatus bet
  rw [h.bets]

theorem SameTables.marketStatus {s s' : Store} (h : s.SameTables s') (id : Uuid) :
    s'.marketStatus id = s.marketStatus id := by
  unfold Store.marketStatus
  rw [h.markets]

theorem SameTables.betIds {s s' : Store} (h : s.SameTables s') (hs : s.BetIds) : s'.BetIds := by
  unfold BetIds at *
  rwa [h.bets]

theorem SameTables.betReferences {s s' : Store} (h : s.SameTables s') (hs : s.BetReferences) :
    s'.BetReferences := by
  unfold BetReferences at *
  rwa [h.bets]

theorem SameTables.marketIds {s s' : Store} (h : s.SameTables s') (hs : s.MarketIds) :
    s'.MarketIds := by
  unfold MarketIds at *
  rwa [h.markets]

end Store

/-- Only a delivery changes the state when it starts. -/
theorem start_cases {call : ApiCall} {s s' : Store} (h : call.start s = some s') :
    (∃ p, call = .delivery s.deliveries p ∧ p ∈ s.betPlacement ∧ s' = { s with
      betPlacement := s.betPlacement.erase p
      unacked := (s.deliveries, p) :: s.unacked
      deliveries := s.deliveries + 1 }) ∨
    (∀ tag p, call ≠ .delivery tag p) ∧ s' = s := by
  cases call with
  | delivery tag p =>
    simp only [ApiCall.start] at h
    split at h
    · rename_i hp
      obtain ⟨hp, rfl⟩ := hp
      exact .inl ⟨p, rfl, hp, (Option.some.inj h).symm⟩
    · exact absurd h (by simp)
  | _ => exact .inr ⟨fun _ _ => by simp, (Option.some.inj h).symm⟩

/-- What Redis and RabbitMQ do by themselves. -/
theorem env_cases {v : ApiEnv} {s s' : Store} (h : v.step s = some s') :
    (∃ u m, v = .expire u m ∧ s' = s.setIdempotency u m none) ∨
    (∃ tag p, v = .redeliver tag p ∧ s' = { s with
      unacked := s.unacked.erase (tag, p)
      betPlacement := p :: s.betPlacement }) ∨
    ∃ p, v = .duplicate p ∧ s' = { s with betPlacement := p :: s.betPlacement } := by
  cases v with
  | expire u m => exact .inl ⟨u, m, rfl, (Option.some.inj h).symm⟩
  | redeliver tag p =>
    simp only [ApiEnv.step] at h
    split at h
    · exact .inr (.inl ⟨tag, p, rfl, (Option.some.inj h).symm⟩)
    · exact absurd h (by simp)
  | duplicate p =>
    simp only [ApiEnv.step] at h
    split at h
    · exact .inr (.inr ⟨p, rfl, (Option.some.inj h).symm⟩)
    · exact absurd h (by simp)

theorem start_tables {call : ApiCall} {s s' : Store} (h : call.start s = some s') :
    s.SameTables s' := by
  rcases start_cases h with ⟨p, -, -, rfl⟩ | ⟨-, rfl⟩
  · exact ⟨rfl, rfl, rfl, rfl⟩
  · exact ⟨rfl, rfl, rfl, rfl⟩

theorem env_tables {v : ApiEnv} {s s' : Store} (h : v.step s = some s') : s.SameTables s' := by
  rcases env_cases h with ⟨u, m, -, rfl⟩ | ⟨tag, p, -, rfl⟩ | ⟨p, -, rfl⟩
  · exact ⟨rfl, rfl, rfl, rfl⟩
  · exact ⟨rfl, rfl, rfl, rfl⟩
  · exact ⟨rfl, rfl, rfl, rfl⟩

/-- The ways an operation ends. -/
theorem api_answer_cases {i : Nat} {m : Mode ApiChoice Err} {o : ApiOp} {s s' : Store}
    {r : Except Err o.Res} {took : Bool} (h : api.answer i m o s = some (r, s', took)) :
    (∃ ch, m = .ok ch ∧ s.exec ch o = (r, s')) ∨ (∃ e, m = .fail e ∧ r = .error e ∧ s' = s) ∨
      ∃ ch e, m = .lost ch e ∧ r = .error e ∧ s' = (s.exec ch o).2 := by
  cases m with
  | ok ch =>
    obtain ⟨hr, hs, -⟩ : (s.exec ch o).1 = r ∧ (s.exec ch o).2 = s' ∧ _ := by
      simpa [Machine.answer] using h
    exact .inl ⟨ch, rfl, Prod.ext hr hs⟩
  | fail e =>
    obtain ⟨rfl, rfl, -⟩ : .error e = r ∧ s = s' ∧ _ := by simpa [Machine.answer] using h
    exact .inr (.inl ⟨e, rfl, rfl, rfl⟩)
  | lost ch e =>
    obtain ⟨rfl, rfl, -⟩ : .error e = r ∧ (s.exec ch o).2 = s' ∧ _ := by
      simpa [Machine.answer] using h
    exact .inr (.inr ⟨ch, e, rfl, rfl, rfl⟩)

/-- Every operation ends: nothing waits. -/
theorem api_answers {i : Nat} (m : Mode ApiChoice Err) (o : ApiOp) (s : Store) :
    ∃ r s' took, api.answer i m o s = some (r, s', took) := by
  cases m with
  | ok ch | fail e | lost ch e => exact ⟨_, _, _, rfl⟩

/-- What an answered or failed operation did. -/
theorem api_answer_effect {i : Nat} {m : Mode ApiChoice Err} {o : ApiOp} {s s' : Store}
    {r : Except Err o.Res} {took : Bool} (h : api.answer i m o s = some (r, s', took)) :
    ∃ ch, Store.Effect ch s o s' := by
  rcases api_answer_cases h with ⟨ch, -, hx⟩ | ⟨e, -, -, rfl⟩ | ⟨ch, e, -, -, rfl⟩
  · exact ⟨ch, Store.exec_effect hx⟩
  · exact ⟨{}, .none o⟩
  · exact ⟨ch, Store.exec_effect rfl⟩

/-- **An operation that was run**, whatever its answer: it took effect, or changed nothing. -/
theorem api_exec_cases {i : Nat} {call : ApiCall} {o : ApiOp} {w w' : World api}
    {r : Except Err o.Res} (h : api.Exec i call o w r w') :
    ∃ took, w'.trace = ⟨i, call, o, took, w.state⟩ :: w.trace ∧
      (took = true ∧ (∃ ch a, w.state.exec ch o = (.ok a, w'.state)) ∨
        took = false ∧ w'.state = w.state) := by
  rcases h.cases with ⟨ch, r₀, s, hs, -, rfl⟩ | ⟨e, -, rfl⟩
  · refine ⟨_, rfl, ?_⟩
    cases r₀ with
    | ok a => exact .inl ⟨rfl, ch, a, Option.some.inj hs⟩
    | error e => exact .inr ⟨rfl, Store.exec_error (Option.some.inj hs)⟩
  · exact ⟨false, rfl, .inr ⟨rfl, rfl⟩⟩

/-- The effect of an operation that was run. -/
theorem api_exec_effect {i : Nat} {call : ApiCall} {o : ApiOp} {w w' : World api}
    {r : Except Err o.Res} (h : api.Exec i call o w r w') :
    ∃ ch, Store.Effect ch w.state o w'.state := by
  obtain ⟨-, -, ⟨-, ch, a, hx⟩ | ⟨-, hs⟩⟩ := api_exec_cases h
  · exact ⟨ch, Store.exec_effect hx⟩
  · exact ⟨{}, hs ▸ .none o⟩

/-- An operation that answered a result. -/
theorem api_exec_ok {i : Nat} {call : ApiCall} {o : ApiOp} {w w' : World api} {a : o.Res}
    (h : api.Exec i call o w (.ok a) w') :
    ∃ ch, w.state.exec ch o = (.ok a, w'.state) ∧
      w'.trace = ⟨i, call, o, true, w.state⟩ :: w.trace := by
  obtain ⟨ch, s, hs, rfl⟩ := h.ok_cases
  exact ⟨ch, Option.some.inj hs, rfl⟩

/-- The saves of a market with such a status. -/
def ApiOp.SavesMarket (id : Uuid) (P : MarketStatus → Prop) (o : ApiOp) : Prop :=
  ∃ m, o = .marketSave m ∧ m.id = id ∧ P m.status

section Saves

variable {i : Nat} {call : ApiCall} {o : ApiOp} {w w' : World api} {r : Except Err o.Res}
  {x : Entry api} {id : Uuid} {P : MarketStatus → Prop}

/-- A save that took effect left its status. -/
theorem api_saved (hx : api.Exec i call o w r w') (htr : w'.trace = x :: w.trace)
    (ht : x.took = true) (ho : o.SavesMarket id P) :
    ∃ st, w'.state.marketStatus id = some st ∧ P st := by
  obtain ⟨m, rfl, rfl, hm⟩ := ho
  obtain ⟨took, htr', ⟨-, ch, a, hs⟩ | ⟨hf, -⟩⟩ := api_exec_cases hx
  · refine ⟨m.status, ?_, hm⟩
    obtain ⟨-, hs⟩ := Prod.mk.inj hs
    rw [← hs, Store.marketStatus_save, if_pos rfl]
  · obtain rfl := (List.cons.inj (htr'.symm.trans htr)).1
    exact absurd (hf.symm.trans ht) (by simp)

/-- A status stays, is that of a new market, or was saved. -/
theorem api_status_cases (hx : api.Exec i call o w r w') (htr : w'.trace = x :: w.trace)
    (id : Uuid) :
    w'.state.marketStatus id = w.state.marketStatus id ∨
    (∃ d, o = .marketCreate d ∧ w.state.marketStatus id = none ∧
      w'.state.marketStatus id = some d.status) ∨
    ∃ m, x.took = true ∧ o = .marketSave m ∧ m.id = id ∧
      w'.state.marketStatus id = some m.status := by
  obtain ⟨took, htr', ⟨ht, ch, a, hs⟩ | ⟨-, hs⟩⟩ := api_exec_cases hx
  · obtain rfl := (List.cons.inj (htr'.symm.trans htr)).1
    rcases (Store.exec_effect hs).marketStatus_cases id with h | h | ⟨m, ho, hid, h⟩
    · exact .inl h
    · exact .inr (.inl h)
    · exact .inr (.inr ⟨m, ht, ho, hid, h⟩)
  · exact .inl (by rw [hs])

end Saves

theorem api_marketFindOne_ok {i : Nat} {call : ApiCall} {id : Uuid} {w w' : World api}
    {m : Option Market} (h : api.Exec i call (.marketFindOne id) w (.ok m) w') :
    m = w.state.markets id ∧ w'.state = w.state := by
  obtain ⟨ch, hs, -⟩ := api_exec_ok h
  obtain ⟨hm, hs⟩ := Prod.mk.inj hs
  exact ⟨(Except.ok.inj hm).symm, hs.symm⟩

theorem api_betFindById_ok {i : Nat} {call : ApiCall} {id : Uuid} {w w' : World api}
    {b : Option Bet} (h : api.Exec i call (.betFindById id) w (.ok b) w') :
    b = w.state.bet id ∧ w'.state = w.state := by
  obtain ⟨ch, hs, -⟩ := api_exec_ok h
  obtain ⟨hb, hs⟩ := Prod.mk.inj hs
  exact ⟨(Except.ok.inj hb).symm, hs.symm⟩

theorem api_betFindByReference_ok {i : Nat} {call : ApiCall} {u m : Uuid} {w w' : World api}
    {b : Option Bet} (h : api.Exec i call (.betFindByReference u m) w (.ok b) w') :
    b = w.state.betOf u m ∧ w'.state = w.state := by
  obtain ⟨ch, hs, -⟩ := api_exec_ok h
  obtain ⟨hb, hs⟩ := Prod.mk.inj hs
  exact ⟨(Except.ok.inj hb).symm, hs.symm⟩

theorem api_redisGet_ok {i : Nat} {call : ApiCall} {u m : Uuid} {w w' : World api}
    {id : Option Uuid} (h : api.Exec i call (.redisGet u m) w (.ok id) w') :
    id = w.state.idempotency u m ∧ w'.state = w.state := by
  obtain ⟨ch, hs, -⟩ := api_exec_ok h
  obtain ⟨hb, hs⟩ := Prod.mk.inj hs
  exact ⟨(Except.ok.inj hb).symm, hs.symm⟩

/-- An answered insert left the row it answers. -/
theorem api_betSave_ok {i : Nat} {call : ApiCall} {d : BetDraft} {w w' : World api} {b : Bet}
    (h : api.Exec i call (.betSave d) w (.ok b) w') :
    ∃ ch : ApiChoice, w.state.rejectsBet ch.fresh d = none ∧ b = d.row ch.fresh ch.now ∧
      w'.state = w.state.addBet b := by
  obtain ⟨ch, hs, -⟩ := api_exec_ok h
  exact ⟨ch, Store.exec_betSave_ok hs⟩

/-- The selected bets, in some order. -/
theorem api_betFind_ok {i : Nat} {call : ApiCall} {id : Uuid} {st : BetStatus} {w w' : World api}
    {bets : List Bet} (h : api.Exec i call (.betFind id st) w (.ok bets) w') :
    bets.Perm (w.state.betsIn id st) ∧ w'.state = w.state := by
  obtain ⟨ch, hs, -⟩ := api_exec_ok h
  obtain ⟨hb, hs⟩ := Prod.mk.inj hs
  refine ⟨?_, hs.symm⟩
  rw [← Except.ok.inj hb]
  split
  · assumption
  · exact .refl _

/-- An answered `applyTransaction` appended its row. -/
theorem api_apply_ok {i : Nat} {call : ApiCall} {u : Uuid} {t : TransactionType} {a : Int}
    {ref : Option Uuid} {d : String} {w w' : World api} {dto : TransactionResponseDto}
    (h : api.Exec i call (.wallet (.applyTransaction u t a ref d)) w (.ok dto) w') :
    ∃ tx, w'.state.wallet.walletTransactions = w.state.wallet.walletTransactions ++ [tx] ∧
      tx.userId = u ∧ tx.type = t ∧ tx.amountCents = a ∧ tx.referenceId = ref := by
  obtain ⟨ch, hs, -⟩ := api_exec_ok h
  obtain ⟨hr, hs⟩ := Prod.mk.inj hs
  rcases WalletDb.exec_rows (Prod.ext hr rfl) with ⟨-, hno⟩ |
    ⟨u', t', a', ref', d', tx, ho, -, hu, ht, ha, href, hrows⟩
  · exact absurd (hno _ _ _ _ _ rfl) (by simp [Except.toBool])
  · obtain ⟨rfl, rfl, rfl, rfl, rfl⟩ := WalletOp.applyTransaction.inj ho
    exact ⟨tx, hs ▸ hrows, hu, ht, ha, href⟩

/-- A lookup that found a row: the key has rows. -/
theorem api_lookup_some {i : Nat} {call : ApiCall} {u ref : Uuid} {t : TransactionType}
    {tx : WalletTransaction} {w w' : World api}
    (h : api.Exec i call (.wallet (.query (.txFindOne u ref (some t)))) w (.ok (some tx)) w') :
    tx ∈ w.state.wallet.rowsFor u t ref ∧ w'.state = w.state := by
  obtain ⟨ch, hs, -⟩ := api_exec_ok h
  obtain ⟨hp, hs⟩ := Prod.mk.inj hs
  exact ⟨pickOne_mem (Except.ok.inj hp), hs.symm⟩

end BoltBet
