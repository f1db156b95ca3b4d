import BoltBet.Wallet.Alone
import BoltBet.Wallet.Atomic

/-!
# Wallets that are created on the way

`getBalance` inserts a wallet when the replica shows none, `applyTransaction` when it finds no row
to lock. Neither expects the row of another request: the unique index on `wallets.userId` refuses
the second insert, and the call throws.

* `Undisturbed`: no infrastructure failure; the replica answers what was committed at some time.
* `CreatesWallets`: whatever ended has ended well, and whatever is under way can end.
* `SqlOp.FindsNone`: the condition on an operation.
* `creates_wallets_iff`: it is enough in every run, and no less will do in one that is over.
-/

namespace BoltBet

open Async SqlState

/-- The answer of the unique index on `wallets.userId`. -/
def duplicateWallet : Err := .QueryFailedError "duplicate key value: wallets.userId"

/-- The operation inserts a wallet of this user. -/
def SqlOp.creates? : SqlOp → Option Uuid
  | .query (.walletCreate userId) => some userId
  | .walletInsert userId => some userId
  | _ => none

/-- **The condition**: where the operation inserts a wallet, none of the user is committed. -/
def SqlOp.FindsNone (o : SqlOp) (s : SqlState) : Prop :=
  ∀ userId ∈ o.creates?, s.committed.wallets userId = none

instance (o : SqlOp) (s : SqlState) : Decidable (o.FindsNone s) :=
  inferInstanceAs (Decidable (∀ userId ∈ o.creates?, s.committed.wallets userId = none))

/-- The replica answers what was committed in one of these states. -/
def SqlOp.Replicates (ch : WalletChoice) (past : List SqlState) : SqlOp → Prop
  | .query (.walletReplicaFindOne userId) =>
    ∃ s ∈ past, ch.replica = s.committed.wallets userId
  | _ => True

instance (ch : WalletChoice) (past : List SqlState) : DecidablePred (SqlOp.Replicates ch past)
  | .query (.walletReplicaFindOne userId) =>
    inferInstanceAs (Decidable (∃ s ∈ past, ch.replica = s.committed.wallets userId))
  | .query (.txFindOne ..) | .query (.walletCreate _) | .startTransaction
  | .walletSelectForUpdate _ | .walletInsert _ | .walletUpdate .. | .txInsert _
  | .commitTransaction | .rollbackTransaction => inferInstanceAs (Decidable True)

/-- **No infrastructure failure**: what runs is answered. -/
def Undisturbed (c : Config walletSql) : Event walletSql → Prop
  | .spawn _ _ => True
  | .run i (.ok ch) => ∀ x ∈ c.waiting i, x.2.Replicates ch c.history
  | _ => False

instance (c : Config walletSql) : DecidablePred (Undisturbed c)
  | .spawn _ _ => inferInstanceAs (Decidable True)
  | .run i (.ok ch) => inferInstanceAs (Decidable (∀ x ∈ c.waiting i, x.2.Replicates ch c.history))
  | .run _ (.fail _) | .run _ (.lost _ _) | .crash _ | .env _ => inferInstanceAs (Decidable False)

/-- Thread `i` threw because the new balance left its range. -/
def LeftRange (w : World walletSql) (i : Nat) (e : Err) : Prop :=
  e = .QueryFailedError "integer out of range" ∧ ∃ x ∈ w.trace, x.tid = i ∧
    ∃ userId wallet, x.op = .walletUpdate userId wallet ∧ fitsInteger wallet.balanceCents = false

/-- **A call ends well**: `getBalance` returns, `deposit` too while the balance stays in its range,
and no call throws because there is a wallet. -/
def EndsWell (w : World walletSql) (i : Nat) : WalletCall → Except Err WalletReply → Prop
  | .getBalance _, r => ∃ dto, r = .ok (.balance dto)
  | .deposit _ _, r => (∃ dto, r = .ok (.transaction dto)) ∨ ∃ e, r = .error e ∧ LeftRange w i e
  | _, r => r ≠ .error duplicateWallet

/-- **Automatic creation never fails**: every call that ended has ended well, and every call that is
under way can end. -/
structure CreatesWallets (c : Config walletSql) : Prop where
  ended : ∀ i call r, c.Ended i call r → EndsWell c.toWorld i call r
  ends : ∀ i call o, c.Waits i call o →
    ∃ c' r, walletSql.Reach Undisturbed c c' ∧ c'.Ended i call r

/-- The condition on a step. -/
def FindsNoWallet : Config walletSql → Event walletSql → Prop :=
  Config.When fun c _ _ o => o.FindsNone c.state

instance (c : Config walletSql) : DecidablePred (FindsNoWallet c) :=
  fun e => inferInstanceAs (Decidable (c.When _ e))

namespace Creation

variable {i j : Nat} {s s' : SqlState} {w w' : World walletSql}

/-! ## What the others leave alone -/

/-- Thread `i` holds no wallet row. -/
def Unlocked (i : Nat) (s : SqlState) : Prop := ∀ u, s.locks u ≠ some i

/-- The transaction of thread `i` is open. -/
def Opened (i : Nat) (s : SqlState) : Prop := ∃ x, s.sessions i = some x

/-- No insert of thread `i` found a wallet. -/
def Unrefused (i : Nat) (w : World walletSql) : Prop :=
  ∀ x ∈ w.trace, x.tid = i → x.op.FindsNone x.before

/-- Whoever gets a row, the others get none. -/
theorem lock_others {u v : Uuid} (hij : i ≠ j) (h : (s.lock j u).locks v = some i) :
    s.locks v = some i := by
  by_cases hv : v = u
  · subst hv
    exact absurd (Option.some.inj ((lock_self s j v).symm.trans h)).symm hij
  · exact (Function.update_of_ne hv _ _).symm.trans h

theorem close_others {u : Uuid} (h : (s.close j).locks u = some i) : s.locks u = some i := by
  simp only [SqlState.close] at h
  split at h
  · exact absurd h (by simp)
  · exact h

theorem close_unlocked (i : Nat) (s : SqlState) : Unlocked i (s.close i) := by
  intro u hu
  simp only [SqlState.close] at hu
  split at hu
  · exact absurd hu (by simp)
  · contradiction

/-- A statement opens, closes and locks for its own connection. -/
theorem effect_others {o : SqlOp} (h : Effect j s o s') (hij : i ≠ j) :
    s'.sessions i = s.sessions i ∧ ∀ u, s'.locks u = some i → s.locks u = some i := by
  cases h with
  | none | create => exact ⟨rfl, fun _ hu => hu⟩
  | start | txInsert => exact ⟨Function.update_of_ne hij .., fun _ hu => hu⟩
  | lock u hf => exact ⟨rfl, fun _ hu => lock_others hij hu⟩
  | insert u x w hx hf => exact ⟨Function.update_of_ne hij .., fun _ hu => lock_others hij hu⟩
  | update u x w hx hf => exact ⟨Function.update_of_ne hij .., fun _ hu => lock_others hij hu⟩
  | commit x hx =>
    exact ⟨Function.update_of_ne hij .., fun _ hu => close_others (s := s.publish x) hu⟩
  | rollback => exact ⟨Function.update_of_ne hij .., fun _ hu => close_others hu⟩

/-- What the others do to thread `i`. -/
structure Others (i : Nat) (w w' : World walletSql) : Prop where
  keeps : Keeps i w.state w'.state
  session : w'.state.sessions i = w.state.sessions i
  locks : ∀ u, w'.state.locks u = some i → w.state.locks u = some i
  past : w.trace <:+ w'.trace
  own : ∀ x ∈ w'.trace, x.tid = i → x ∈ w.trace

namespace Others

theorem refl (i : Nat) (w : World walletSql) : Others i w w :=
  ⟨.refl i w.state, rfl, fun _ hu => hu, List.suffix_rfl, fun _ hx _ => hx⟩

theorem trans {w₁ : World walletSql} (h : Others i w w₁) (h' : Others i w₁ w') : Others i w w' where
  keeps := h.keeps.trans h'.keeps
  session := h'.session.trans h.session
  locks u hu := h.locks u (h'.locks u hu)
  past := h.past.trans h'.past
  own x hx hi := h.own x (h'.own x hx hi) hi

/-- A statement of another thread. -/
theorem of_exec {call : WalletCall} {o : SqlOp} {r : Except Err o.Res} (hij : i ≠ j)
    (hL : w.state.Locked) (hx : walletSql.Exec j call o w r w') : Others i w w' := by
  have hown : ∀ {took : Bool}, ∀ x ∈ (⟨j, call, o, took, w.state⟩ : Entry walletSql) :: w.trace,
      x.tid = i → x ∈ w.trace := by
    intro took x hx hi
    rcases List.mem_cons.mp hx with rfl | hx
    · exact absurd hi.symm hij
    · exact hx
  rcases hx.cases with ⟨ch, r₀, s, hs, -, rfl⟩ | ⟨e, -, rfl⟩
  · have heff := exec_effect hs
    obtain ⟨hsession, hlocks⟩ := effect_others heff hij
    exact ⟨heff.keeps hL hij, hsession, hlocks, List.suffix_cons _ _, hown⟩
  · exact ⟨.refl i w.state, rfl, fun _ hu => hu, List.suffix_cons _ _, hown⟩

theorem unlocked (h : Others i w w') (hu : Unlocked i w.state) : Unlocked i w'.state :=
  fun u hl => hu u (h.locks u hl)

theorem opened (h : Others i w w') (ho : Opened i w.state) : Opened i w'.state := by
  obtain ⟨x, hx⟩ := ho
  exact ⟨x, h.session.trans hx⟩

theorem unrefused (h : Others i w w') : Unrefused i w' ↔ Unrefused i w :=
  ⟨fun hw x hx => hw x (h.past.subset hx), fun hw x hx hi => hw x (h.own x hx hi) hi⟩

theorem leftRange (h : Others i w w') {e : Err} (hw : LeftRange w i e) : LeftRange w' i e := by
  obtain ⟨he, x, hx, hover⟩ := hw
  exact ⟨he, x, h.past.subset hx, hover⟩

theorem endsWell (h : Others i w w') {call : WalletCall} {r : Except Err WalletReply}
    (hw : EndsWell w i call r) : EndsWell w' i call r := by
  cases call with
  | deposit u dto =>
    rcases hw with hok | ⟨e, he, hleft⟩
    · exact .inl hok
    · exact .inr ⟨e, he, h.leftRange hleft⟩
  | getBalance | debit | credit => exact hw

end Others

/-! ## The statements of a transaction -/

/-- The transaction of thread `i` is open, and `P` holds of it. -/
structure Within (i : Nat) (P : SqlState → Session → Prop) (s : SqlState) : Prop where
  opened : Opened i s
  known : InTx i P s

/-- Nothing but its end closes a transaction. -/
theorem effect_opened {o : SqlOp} (h : Effect i s o s') (hs : Opened i s)
    (hc : o ≠ .commitTransaction) (hr : o ≠ .rollbackTransaction) : Opened i s' := by
  cases h with
  | none | create | lock => exact hs
  | start | insert | update | txInsert => exact ⟨_, setSession_self ..⟩
  | commit => exact absurd rfl hc
  | rollback => exact absurd rfl hr

/-- In an open transaction every statement runs there. -/
theorem inSession_opened {α : Type} {x : Session} {f : Session → Option (Except Err α × SqlState)}
    (hx : s.sessions i = some x) : s.inSession i f = f x := by
  unfold inSession
  rw [hx]

section Statements

variable {ch : WalletChoice} {u : Uuid} {was now row : Wallet}

theorem within_start {r : Except Err Unit} (h : exec i ch .startTransaction s = some (r, s')) :
    r = .ok () ∧ Within i Unwritten s' := by
  cases r with
  | ok a =>
    have hopened : Opened i s' := by
      obtain ⟨-, rfl⟩ := Prod.mk.inj (Option.some.inj h)
      exact ⟨_, setSession_self ..⟩
    exact ⟨rfl, hopened, start_ok h⟩
  | error e => exact absurd (Prod.mk.inj (Option.some.inj h)).1 (by simp)

theorem within_select {r : Except Err (Option Wallet)} (hs : Within i Unwritten s)
    (h : exec i ch (.walletSelectForUpdate u) s = some (r, s')) :
    (r = .ok none ∧ Within i Unwritten s') ∨
      ∃ was, r = .ok (some was) ∧ Within i (Holding i u was was []) s' := by
  have hopened := effect_opened (exec_effect h) hs.opened (by simp) (by simp)
  cases r with
  | ok row =>
    cases row with
    | none => exact .inl ⟨rfl, hopened, select_none hs.known h⟩
    | some was => exact .inr ⟨was, rfl, hopened, select_some hs.known h⟩
  | error e =>
    obtain ⟨x, hx⟩ := hs.opened
    simp only [exec, inSession_opened hx] at h
    split at h
    · exact absurd (Prod.mk.inj (Option.some.inj h)).1 (by simp)
    · split at h
      · exact absurd (Prod.mk.inj (Option.some.inj h)).1 (by simp)
      · exact absurd h (by simp)

/-- An insert is refused exactly when it finds a wallet. -/
theorem within_insert {r : Except Err Wallet} (hs : Within i Unwritten s)
    (h : exec i ch (.walletInsert u) s = some (r, s')) :
    (∃ was, r = .ok was ∧ SqlOp.FindsNone (.walletInsert u) s ∧
      Within i (Holding i u was was []) s') ∨
    r = .error duplicateWallet ∧ ¬ SqlOp.FindsNone (.walletInsert u) s ∧ Opened i s' := by
  have hopened := effect_opened (exec_effect h) hs.opened (by simp) (by simp)
  obtain ⟨x, hx⟩ := hs.opened
  have hvisible : s.visible x u = s.committed.wallets u := by
    simp [visible, (hs.known x hx).1]
  have hfinds : SqlOp.FindsNone (.walletInsert u) s ↔ s.committed.wallets u = none := by
    simp [SqlOp.FindsNone, SqlOp.creates?]
  cases r with
  | ok was =>
    refine .inl ⟨was, rfl, ?_, hopened, insert_ok hs.known h⟩
    simp only [exec, inSession_opened hx, hvisible] at h
    split at h
    · exact absurd (Prod.mk.inj (Option.some.inj h)).1 (by simp)
    · rename_i hnone
      exact hfinds.mpr hnone
  | error e =>
    simp only [exec, inSession_opened hx, hvisible] at h
    split at h
    · rename_i w hw
      obtain ⟨he, -⟩ := Prod.mk.inj (Option.some.inj h)
      refine .inr ⟨he.symm, fun hn => ?_, hopened⟩
      exact absurd (hw.symm.trans (hfinds.mp hn)) (by simp)
    · split at h
      · exact absurd (Prod.mk.inj (Option.some.inj h)).1 (by simp)
      · exact absurd h (by simp)

theorem within_update {r : Except Err Unit} (hs : Within i (Holding i u was now []) s)
    (hid : now.id = row.id) (h : exec i ch (.walletUpdate u row) s = some (r, s')) :
    (r = .ok () ∧ fitsInteger row.balanceCents = true ∧
      Within i (Holding i u was row []) s') ∨
    r = .error (.QueryFailedError "integer out of range") ∧
      fitsInteger row.balanceCents = false ∧ Opened i s' := by
  have hopened := effect_opened (exec_effect h) hs.opened (by simp) (by simp)
  cases r with
  | ok a =>
    obtain ⟨hknown, hfit⟩ := update_ok hs.known hid h
    exact .inl ⟨rfl, hfit, hopened, hknown⟩
  | error e =>
    obtain ⟨x, hx⟩ := hs.opened
    simp only [exec, inSession_opened hx, (hs.known x hx).now, hid, if_true] at h
    split at h
    · split at h
      · exact absurd (Prod.mk.inj (Option.some.inj h)).1 (by simp)
      · rename_i hfit
        obtain ⟨he, -⟩ := Prod.mk.inj (Option.some.inj h)
        exact .inr ⟨he.symm, by simpa using hfit, hopened⟩
    · exact absurd h (by simp)

theorem within_txInsert {d : TransactionDraft} {r : Except Err WalletTransaction}
    (hs : Within i (Holding i u was now []) s) (hfit : fitsInteger d.balanceAfterCents = true)
    (h : exec i ch (.txInsert d) s = some (r, s')) :
    (∃ tx, r = .ok tx ∧ Within i (Holding i u was now [tx]) s') ∨
    r = .error (.QueryFailedError "integer out of range") ∧
      fitsInteger d.amountCents = false ∧ Opened i s' := by
  have hopened := effect_opened (exec_effect h) hs.opened (by simp) (by simp)
  cases r with
  | ok tx => exact .inl ⟨tx, rfl, hopened, (txInsert_ok hs.known h).1⟩
  | error e =>
    obtain ⟨x, hx⟩ := hs.opened
    simp only [exec, inSession_opened hx, hfit, Bool.true_and] at h
    split at h
    · exact absurd (Prod.mk.inj (Option.some.inj h)).1 (by simp)
    · rename_i hfits
      obtain ⟨he, -⟩ := Prod.mk.inj (Option.some.inj h)
      exact .inr ⟨he.symm, by simpa using hfits, hopened⟩

/-- So is the one of `getBalance`. -/
theorem create_cases {r : Except Err Wallet}
    (h : exec i ch (.query (.walletCreate u)) s = some (r, s')) :
    (∃ wallet, r = .ok wallet ∧ SqlOp.FindsNone (.query (.walletCreate u)) s) ∨
    r = .error duplicateWallet ∧ ¬ SqlOp.FindsNone (.query (.walletCreate u)) s := by
  have hfinds : SqlOp.FindsNone (.query (.walletCreate u)) s ↔ s.committed.wallets u = none := by
    simp [SqlOp.FindsNone, SqlOp.creates?]
  simp only [exec, WalletDb.execQuery] at h
  split at h
  · exact absurd h (by simp)
  · cases hu : s.committed.wallets u with
    | some w =>
      rw [hu] at h
      obtain ⟨he, -⟩ := Prod.mk.inj (Option.some.inj h)
      exact .inr ⟨he.symm, fun hn => absurd (hu.symm.trans (hfinds.mp hn)) (by simp)⟩
    | none =>
      rw [hu] at h
      obtain ⟨he, -⟩ := Prod.mk.inj (Option.some.inj h)
      exact .inl ⟨_, he.symm, hfinds.mpr hu⟩

/-- A query takes no lock. -/
theorem query_unlocked {q : WalletQuery} {r : Except Err q.Res} (hs : Unlocked i s)
    (h : exec i ch (.query q) s = some (r, s')) : Unlocked i s' := by
  have heff := exec_effect h
  generalize hq : SqlOp.query q = o at heff
  cases heff with
  | none | create => exact hs
  | start | lock | insert | update | txInsert | commit | rollback => exact absurd hq (by simp)

theorem opened_commit {r : Except Err Unit} (hs : Opened i s)
    (h : exec i ch .commitTransaction s = some (r, s')) : r = .ok () ∧ Unlocked i s' := by
  obtain ⟨x, hx⟩ := hs
  simp only [exec, inSession_opened hx] at h
  obtain ⟨rfl, rfl⟩ := Prod.mk.inj (Option.some.inj h)
  exact ⟨rfl, close_unlocked i (s.publish x)⟩

theorem opened_rollback {r : Except Err Unit} (hs : Opened i s)
    (h : exec i ch .rollbackTransaction s = some (r, s')) : r = .ok () ∧ Unlocked i s' := by
  obtain ⟨x, hx⟩ := hs
  simp only [exec, inSession_opened hx] at h
  obtain ⟨rfl, rfl⟩ := Prod.mk.inj (Option.some.inj h)
  exact ⟨rfl, close_unlocked i s⟩

end Statements

/-! ## The calls -/

/-- The rules: every operation is answered, and the others leave a thread alone. -/
def creationRules : Rules walletSql where
  inv w := w.state.Locked
  guar _ _ _ _ _ := True
  rely i _ _ w w' := Others i w w'
  cond _ _ _ _ _ _ := True
  modes := IsOk
  rely_refl i _ _ w := .refl i w
  rely_trans := .trans

/-- How the `try` block ends, and what it threw. -/
structure Threw (i : Nat) (type : TransactionType) (a : Int) (e : Err) (w : World walletSql) :
    Prop where
  refused : ¬ Unrefused i w → e = duplicateWallet
  unrefused : Unrefused i w → e ≠ duplicateWallet ∧
    (type ≠ .DEBIT → fitsInteger a = true → LeftRange w i e)

theorem Others.threw {type : TransactionType} {a : Int} {e : Err} (h : Others i w w')
    (hw : Threw i type a e w) : Threw i type a e w' where
  refused hn := hw.refused (h.unrefused.not.mp hn)
  unrefused hu := (hw.unrefused (h.unrefused.mp hu)).imp_right fun hleft ht ha =>
    h.leftRange (hleft ht ha)

/-- What thread `i` has executed after one more operation. -/
theorem unrefused_cons {call : WalletCall} {o : SqlOp} {took : Bool}
    (h : w'.trace = ⟨i, call, o, took, w.state⟩ :: w.trace) :
    Unrefused i w' ↔ o.FindsNone w.state ∧ Unrefused i w := by
  unfold Unrefused
  rw [h]
  simp only [List.forall_mem_cons, true_implies]

theorem threw_cons {type : TransactionType} {a : Int} {e : Err} {call : WalletCall} {o : SqlOp}
    {took : Bool} (h : w'.trace = ⟨i, call, o, took, w.state⟩ :: w.trace) (ho : o.creates? = none)
    (hw : Threw i type a e w) : Threw i type a e w' := by
  have hsame : Unrefused i w' ↔ Unrefused i w := by
    rw [unrefused_cons h]
    exact and_iff_right (by simp [SqlOp.FindsNone, ho])
  refine ⟨fun hn => hw.refused (hsame.not.mp hn), fun hu => ?_⟩
  refine (hw.unrefused (hsame.mp hu)).imp_right fun hleft ht ha => ?_
  obtain ⟨he, x, hx, hover⟩ := hleft ht ha
  exact ⟨he, x, h ▸ List.mem_cons_of_mem _ hx, hover⟩

section Programs

variable {call : walletSql.Call}

/-- One operation, and what it answers. -/
theorem safe_op {o : SqlOp} {J : World walletSql → Prop}
    {Q : Except Err o.Res → World walletSql → Prop}
    (hJ : ∀ {w w'}, Others i w w' → J w → J w') (hw : J w)
    (hQ : ∀ {w₁ w₂ : World walletSql} {ch r}, J w₁ →
      exec i ch o w₁.state = some (r, w₂.state) →
      w₂.trace = ⟨i, call, o, r.toBool, w₁.state⟩ :: w₁.trace → Q r w₂) :
    creationRules.Safe i call Q (Prog.perform (S := SqlSig) o) w := by
  refine Rules.safe_perform fun w₁ hrel hinv r w₂ _ hx => ?_
  obtain ⟨m, s, b, ⟨ch, rfl⟩, ha, rfl⟩ := hx
  obtain ⟨⟨r₀, s₀⟩, hs, he⟩ := Option.map_eq_some_iff.mp ha
  obtain ⟨rfl, rfl, rfl⟩ : r₀ = r ∧ s₀ = s ∧ r₀.toBool = b := by simpa using he
  exact ⟨(exec_effect hs).locked hinv, trivial, hQ (hJ hrel hw) hs rfl⟩

/-- An operation of a thread that was never refused, and inserts nothing. -/
theorem safe_clean {o : SqlOp} (ho : o.creates? = none) {J : SqlState → Prop}
    {Q : Except Err o.Res → World walletSql → Prop}
    (hJ : ∀ {w w'}, Others i w w' → J w.state → J w'.state) (hw : Unrefused i w) (hj : J w.state)
    (hQ : ∀ {s ch r} {w₂ : World walletSql}, J s → exec i ch o s = some (r, w₂.state) →
      Unrefused i w₂ → (∃ x ∈ w₂.trace, x.tid = i ∧ x.op = o) → Q r w₂) :
    creationRules.Safe i call Q (Prog.perform (S := SqlSig) o) w := by
  refine safe_op (J := fun w => Unrefused i w ∧ J w.state)
    (fun ho hw => ⟨ho.unrefused.mpr hw.1, hJ ho hw.2⟩) ⟨hw, hj⟩ ?_
  rintro w₁ w₂ ch r ⟨hw₁, hj₁⟩ hs htr
  refine hQ hj₁ hs ((unrefused_cons htr).mpr ⟨by simp [SqlOp.FindsNone, ho], hw₁⟩) ?_
  exact ⟨_, htr ▸ List.mem_cons_self, rfl, rfl⟩

theorem Others.within {P : SqlState → Session → Prop} (h : Others i w w')
    (hP : Keeps i w.state w'.state → InTx i P w.state → InTx i P w'.state)
    (hw : Within i P w.state) : Within i P w'.state :=
  ⟨h.opened hw.opened, hP h.keeps hw.known⟩

theorem Others.unwritten (h : Others i w w') (hw : Within i Unwritten w.state) :
    Within i Unwritten w'.state := h.within Keeps.unwritten hw

theorem Others.holding (h : Others i w w') {u : Uuid} {was now : Wallet}
    {txs : List WalletTransaction} (hw : Within i (Holding i u was now txs) w.state) :
    Within i (Holding i u was now txs) w'.state := h.within (fun hk => hk.holding) hw

/-- The wallet row to work on, or the insert was refused. -/
theorem safe_lockedWallet (u : Uuid) (hw : Unrefused i w) (hs : Within i Unwritten w.state) :
    creationRules.Safe i call (fun r w' => match r with
      | .ok was => Unrefused i w' ∧ Within i (Holding i u was was []) w'.state
      | .error e => Opened i w'.state ∧ ¬ Unrefused i w' ∧ e = duplicateWallet)
      (Statements.lockedWallet u) w := by
  unfold Statements.lockedWallet
  refine Rules.safe_bind.mpr (safe_clean rfl Others.unwritten hw hs ?_)
  intro s ch r w₁ hs hx hw₁ _
  rcases within_select hs hx with ⟨rfl, hs₁⟩ | ⟨was, rfl, hs₁⟩
  · refine safe_op (J := fun w => Unrefused i w ∧ Within i Unwritten w.state)
      (fun ho hw => ⟨ho.unrefused.mpr hw.1, ho.unwritten hw.2⟩) ⟨hw₁, hs₁⟩ ?_
    rintro w₂ w₃ ch r ⟨hw₂, hs₂⟩ hx htr
    rcases within_insert hs₂ hx with ⟨was, rfl, hfinds, hs₃⟩ | ⟨rfl, hfinds, hopened⟩
    · exact ⟨(unrefused_cons htr).mpr ⟨hfinds, hw₂⟩, hs₃⟩
    · exact ⟨hopened, fun hw₃ => hfinds ((unrefused_cons htr).mp hw₃).1, rfl⟩
  · exact ⟨hw₁, hs₁⟩

/-- The `try` block of `applyTransaction`. -/
theorem safe_transaction (u : Uuid) (type : TransactionType) (a : Int) (ref : Option Uuid)
    (desc : String) (hw : Unrefused i w) (hs : Within i Unwritten w.state) :
    creationRules.Safe i call (fun r w' => match r with
      | .ok _ => Unrefused i w' ∧ Unlocked i w'.state
      | .error e => Opened i w'.state ∧ Threw i type a e w')
      (Statements.transaction u type a ref desc) w := by
  unfold Statements.transaction
  refine Rules.safe_seq (safe_lockedWallet u hw hs) ?_ ?_
  swap
  · rintro e w₁ ⟨hopened, hn, rfl⟩
    exact ⟨hopened, fun _ => rfl, fun hu => absurd hu hn⟩
  rintro was w₁ ⟨hw₁, hs₁⟩
  rw [Statements.moveBalance_eq]
  cases hb : WalletDb.newBalance type was.balanceCents a with
  | error e =>
    refine ⟨hs₁.opened, fun hn => absurd hw₁ hn, fun _ => ?_⟩
    cases type with
    | DEBIT =>
      simp only [WalletDb.newBalance] at hb
      split at hb
      · obtain rfl := Except.error.inj hb
        exact ⟨by simp [WalletDb.insufficientBalance, duplicateWallet], fun ht => absurd rfl ht⟩
      · exact absurd hb (by simp)
    | DEPOSIT | CREDIT => exact absurd hb (by simp [WalletDb.newBalance])
  | ok b =>
    rw [Prog.ret_bind]
    -- `UPDATE`
    refine Rules.safe_bind.mpr (safe_clean rfl (fun h => h.holding) hw₁ hs₁ ?_)
    intro s ch r w₂ hs hx hw₂ htr
    have hid : was.id = ({ was with balanceCents := b } : Wallet).id := rfl
    rcases within_update hs hid hx with
      ⟨rfl, hfit, hs₂⟩ | ⟨rfl, hfit, hopened⟩
    swap
    · obtain ⟨x, hx, hi, ho⟩ := htr
      exact ⟨hopened, fun hn => absurd hw₂ hn, fun _ => ⟨by simp [duplicateWallet], fun _ _ =>
        ⟨rfl, x, hx, hi, u, _, ho, hfit⟩⟩⟩
    -- `INSERT`
    refine Rules.safe_bind.mpr (safe_clean rfl (fun h => h.holding) hw₂ hs₂ ?_)
    intro s ch r w₃ hs hx hw₃ _
    rcases within_txInsert hs hfit hx with ⟨tx, rfl, hs₃⟩ | ⟨rfl, hfita, hopened⟩
    swap
    · refine ⟨hopened, fun hn => absurd hw₃ hn,
        fun _ => ⟨by simp [duplicateWallet], fun _ ha => ?_⟩⟩
      exact absurd (ha.symm.trans hfita) (by simp)
    -- `COMMIT`
    refine Rules.safe_bind.mpr (safe_clean rfl Others.opened hw₃ hs₃.opened ?_)
    intro s ch r w₄ hs hx hw₄ _
    obtain ⟨rfl, hunlocked⟩ := opened_commit hs hx
    exact ⟨hw₄, hunlocked⟩

/-- `applyTransaction`. -/
theorem safe_applyTransaction (u : Uuid) (type : TransactionType) (a : Int) (ref : Option Uuid)
    (desc : String) (hw : Unrefused i w) :
    creationRules.Safe i call (fun r w' => Unlocked i w'.state ∧ match r with
      | .ok _ => Unrefused i w'
      | .error e => Threw i type a e w')
      (Statements.applyTransaction u type a ref desc) w := by
  unfold Statements.applyTransaction
  refine Rules.safe_bind.mpr (safe_clean (J := fun _ => True) rfl (fun _ h => h) hw trivial ?_)
  intro s ch r w₁ _ hx hw₁ _
  obtain ⟨rfl, hs₁⟩ := within_start hx
  refine Rules.safe_try (safe_transaction u type a ref desc hw₁ hs₁) (fun _ _ h => h.symm) ?_
  rintro e w₂ ⟨hopened, hthrew⟩
  refine Rules.safe_bind.mpr (safe_op (J := fun w => Opened i w.state ∧ Threw i type a e w)
    (fun ho h => ⟨ho.opened h.1, ho.threw h.2⟩) ⟨hopened, hthrew⟩ ?_)
  rintro w₃ w₄ ch r ⟨hopened, hthrew⟩ hx htr
  obtain ⟨rfl, hunlocked⟩ := opened_rollback hopened hx
  exact ⟨hunlocked, threw_cons htr rfl hthrew⟩

/-- How a call ends: well, or refused. -/
structure Ends (i : Nat) (call : WalletCall) (r : Except Err WalletReply)
    (w : World walletSql) : Prop where
  unlocked : Unlocked i w.state
  unrefused : Unrefused i w → EndsWell w i call r
  refused : ¬ Unrefused i w → r = .error duplicateWallet

/-- `getBalance`. -/
theorem safe_getBalance (u : Uuid) (hw : Unrefused i w) (hl : Unlocked i w.state) :
    creationRules.Safe i call (Ends i (.getBalance u)) (walletSql.body (.getBalance u)) w := by
  show creationRules.Safe i call _
    ((WalletReply.balance <$> WalletService.getBalance u).expand Statements.statements) w
  unfold WalletService.getBalance WalletService.getOrCreateWallet
  simp only [map_eq_pure_bind, Prog.expand_bind]
  refine Rules.safe_bind.mpr (Rules.safe_bind.mpr (Rules.safe_bind.mpr
    ((Rules.safe_expand_perform (T := WalletSig) (o := .query (.walletReplicaFindOne u))).mpr
      (safe_clean rfl Others.unlocked hw hl ?_))))
  intro s ch r w₁ hs hx hw₁ _
  have hl₁ : Unlocked i w₁.state := query_unlocked hs hx
  obtain rfl : .ok ch.replica = r := (Prod.mk.inj (Option.some.inj hx)).1
  cases ch.replica with
  | some wallet => exact ⟨hl₁, fun _ => ⟨_, rfl⟩, fun hn => absurd hw₁ hn⟩
  | none =>
    refine (Rules.safe_expand_perform (T := WalletSig) (h := Statements.statements)
      (o := .query (.walletCreate u))).mpr
      (safe_op (J := fun w => Unrefused i w ∧ Unlocked i w.state)
        (fun ho h => ⟨ho.unrefused.mpr h.1, ho.unlocked h.2⟩) ⟨hw₁, hl₁⟩ ?_)
    rintro w₂ w₃ ch r ⟨hw₂, hl₂⟩ hx htr
    have hl₃ : Unlocked i w₃.state := query_unlocked hl₂ hx
    rcases create_cases hx with ⟨wallet, rfl, hfinds⟩ | ⟨rfl, hfinds⟩
    · have hw₃ := (unrefused_cons htr).mpr ⟨hfinds, hw₂⟩
      exact ⟨hl₃, fun _ => ⟨_, rfl⟩, fun hn => absurd hw₃ hn⟩
    · exact ⟨hl₃, fun hu => absurd ((unrefused_cons htr).mp hu).1 hfinds, fun _ => rfl⟩

/-- The other calls look for their row first. -/
theorem safe_booking {u ref : Uuid} {t : Option TransactionType} {desc : String}
    (type : TransactionType) (a : Int)
    {f : Option WalletTransaction → Prog WalletSig TransactionResponseDto}
    (hsome : ∀ tx, f (some tx) = .ret (toTransactionDto tx))
    (hnone : f none = WalletService.applyTransaction u type a (some ref) desc)
    (hw : Unrefused i w) (hl : Unlocked i w.state)
    (hok : ∀ {w'}, ∀ dto, EndsWell w' i call (.ok (.transaction dto)))
    (herr : ∀ {w'} e, Threw i type a e w' → Unrefused i w' → EndsWell w' i call (.error e)) :
    creationRules.Safe i call (Ends i call)
      ((WalletReply.transaction <$> (WalletService.txFindOne u ref t >>= f)).expand
        Statements.statements) w := by
  simp only [map_eq_pure_bind, Prog.expand_bind]
  refine Rules.safe_bind.mpr (Rules.safe_bind.mpr
    ((Rules.safe_expand_perform (T := WalletSig) (o := .query (.txFindOne u ref t))).mpr
      (safe_clean rfl Others.unlocked hw hl ?_)))
  intro s ch r w₁ hs hx hw₁ _
  have hl₁ : Unlocked i w₁.state := query_unlocked hs hx
  obtain ⟨rfl, -⟩ := Prod.mk.inj (Option.some.inj hx)
  show creationRules.Safe i call _ ((f _).expand Statements.statements) w₁
  cases pickOne ch.pick _ with
  | some tx =>
    rw [hsome]
    exact ⟨hl₁, fun _ => hok _, fun hn => absurd hw₁ hn⟩
  | none =>
    rw [hnone]
    refine (Rules.safe_expand_perform (T := WalletSig)
      (o := .applyTransaction u type a (some ref) desc)).mpr
      ((safe_applyTransaction u type a (some ref) desc hw₁).mono ?_)
    rintro (e | dto) w₂ ⟨hl₂, h₂⟩
    · exact ⟨hl₂, herr e h₂, fun hn => congrArg _ (h₂.refused hn)⟩
    · exact ⟨hl₂, fun _ => hok _, fun hn => absurd h₂ hn⟩

/-- **Every call ends well, or is refused.** -/
theorem safe_body (call : WalletCall) (hw : Unrefused i w) (hl : Unlocked i w.state) :
    creationRules.Safe i call (Ends i call) (walletSql.body call) w := by
  cases call with
  | getBalance u => exact safe_getBalance u hw hl
  | deposit u dto =>
    refine safe_booking .DEPOSIT dto.amountCents (fun _ => rfl) rfl hw hl
      (fun dto => .inl ⟨dto, rfl⟩) fun e h hu => ?_
    have hfits : fitsInteger dto.amountCents = true := by
      have hmin := dto.min
      have hmax := dto.max
      simp [fitsInteger]
      omega
    exact .inr ⟨e, rfl, (h.unrefused hu).2 (by simp) hfits⟩
  | debit u a ha ref desc =>
    refine safe_booking .DEBIT a (fun _ => rfl) rfl hw hl
      (fun dto => by simp [EndsWell]) fun e h hu => ?_
    exact fun he => (h.unrefused hu).1 (Except.error.inj he)
  | credit u a ha ref desc =>
    refine safe_booking .CREDIT a (fun _ => rfl) rfl hw hl
      (fun dto => by simp [EndsWell]) fun e h hu => ?_
    exact fun he => (h.unrefused hu).1 (Except.error.inj he)

end Programs

/-! ## Who holds a row -/

end Creation

/-- The user to whose wallet the call books something. -/
def WalletCall.books? : WalletCall → Option Uuid
  | .getBalance _ => none
  | .deposit userId _ => some userId
  | .debit userId .. => some userId
  | .credit userId .. => some userId

/-- The call runs the operation. -/
def SqlOp.PartOf (call : WalletCall) : SqlOp → Prop
  | .query (.walletCreate userId) => call = .getBalance userId
  | .walletSelectForUpdate userId => call.books? = some userId
  | .walletInsert userId => call.books? = some userId
  | .walletUpdate userId _ => call.books? = some userId
  | _ => True

/-- So before its transactions are taken apart. -/
def WalletOp.PartOf (call : WalletCall) : WalletOp → Prop
  | .query (.walletCreate userId) => call = .getBalance userId
  | .query _ => True
  | .applyTransaction userId .. => call.books? = some userId

namespace Creation

theorem statements_partOf {call : WalletCall} {o : WalletOp} (h : o.PartOf call) :
    (Statements.statements o).All (SqlOp.PartOf call) := by
  have hperform : ∀ {o : SqlOp}, o.PartOf call →
      (Prog.perform (S := SqlSig) o).All (SqlOp.PartOf call) :=
    fun ho => Prog.All.perform (S := SqlSig) ho
  cases o with
  | query q =>
    cases q with
    | walletCreate u => exact hperform (o := .query (.walletCreate u)) h
    | txFindOne u ref t => exact hperform (o := .query (.txFindOne u ref t)) trivial
    | walletReplicaFindOne u => exact hperform (o := .query (.walletReplicaFindOne u)) trivial
  | applyTransaction u type a ref desc =>
    refine .bind (hperform (o := .startTransaction) trivial) fun _ => .tryCatch ?_ fun e =>
      .bind (hperform (o := .rollbackTransaction) trivial) fun _ => trivial
    refine .bind (.bind (hperform (o := .walletSelectForUpdate u) h) fun row => ?_) fun was => ?_
    · cases row with
      | some was => trivial
      | none => exact hperform (o := .walletInsert u) h
    · refine .bind ?_ fun row => .bind (hperform (o := .walletUpdate u row) h) fun _ =>
        .bind (hperform (o := .txInsert _) trivial) fun _ =>
        .bind (hperform (o := .commitTransaction) trivial) fun _ => trivial
      rw [Statements.moveBalance_eq]
      cases WalletDb.newBalance type was.balanceCents a <;> trivial

theorem body_partOf (call : WalletCall) : (walletSql.body call).All (SqlOp.PartOf call) := by
  have hperform : ∀ {o : WalletOp}, o.PartOf call →
      (Prog.perform (S := WalletSig) o).All (WalletOp.PartOf call) :=
    fun ho => Prog.All.perform (S := WalletSig) ho
  have hbody : call.body.All (WalletOp.PartOf call) := by
    cases call with
    | getBalance u =>
      refine .map (.bind (.bind (hperform (o := .query (.walletReplicaFindOne u)) trivial)
        fun row => ?_) fun _ => trivial)
      cases row with
      | some wallet => trivial
      | none => exact hperform (o := .query (.walletCreate u)) rfl
    | deposit u dto | debit u a ha ref desc | credit u a ha ref desc =>
      refine .map (.bind (hperform (o := .query (.txFindOne u _ _)) trivial) fun existing => ?_)
      cases existing with
      | some tx => trivial
      | none => exact hperform (o := .applyTransaction u _ _ _ _) rfl
  exact hbody.expand fun _ => statements_partOf

/-- Only a call that books something to the wallet comes to hold its row. -/
theorem effect_holder {call : WalletCall} {o : SqlOp} {u : Uuid} (h : Effect i s o s')
    (ho : o.PartOf call) (hl : s'.locks u = some j) :
    s.locks u = some j ∨ j = i ∧ call.books? = some u := by
  -- the row that a statement locks
  have hlock : ∀ {v : Uuid}, call.books? = some v → (s.lock i v).locks u = some j →
      s.locks u = some j ∨ j = i ∧ call.books? = some u := by
    intro v hv hl
    by_cases huv : u = v
    · subst huv
      exact .inr ⟨(Option.some.inj ((lock_self s i u).symm.trans hl)).symm, hv⟩
    · exact .inl ((Function.update_of_ne huv _ _).symm.trans hl)
  cases h with
  | none | create | start | txInsert => exact .inl hl
  | lock | insert | update => exact hlock ho hl
  | commit x hx => exact .inl (close_others (s := s.publish x) hl)
  | rollback => exact .inl (close_others hl)

variable {c c' : Config walletSql}

/-- **Whoever holds a row has not crashed**, and its call books something to that wallet. -/
theorem lock_holder (h : walletSql.Reach Undisturbed (walletSql.init .empty) c) {u : Uuid}
    (hl : c.state.locks u = some j) :
    ∃ call p, c.threads j = some ⟨call, p, false⟩ ∧ call.books? = some u := by
  induction h with
  | init => exact absurd hl (by simp [Machine.init, SqlState.empty])
  | step e hc hok hs ih =>
    rcases walletSql.step_cases hs with ⟨i, call, s, rfl, hi, hst, rfl⟩ |
      ⟨i, m, call, o, k, r, w', rfl, hi, hx, rfl⟩ | ⟨i, call, o, k, rfl, -, -⟩ | ⟨v, s, rfl, -, -⟩
    · obtain rfl := Option.some.inj hst
      obtain ⟨call', p, hj, hbooks⟩ := ih hl
      have hji : j ≠ i := by
        rintro rfl
        exact absurd (hi.symm.trans hj) (by simp)
      exact ⟨call', p, (Function.update_of_ne hji _ _).trans hj, hbooks⟩
    · -- who held it before still does, if it is not this thread with more to do
      have hold : ∀ {c₁ : Config walletSql}, (∃ call p, c₁.threads j = some ⟨call, p, false⟩ ∧
          call.books? = some u) → c₁.threads i = some ⟨call, .await o k, false⟩ →
          ∃ call' p, Function.update c₁.threads i (some ⟨call, k r, false⟩) j =
            some ⟨call', p, false⟩ ∧ call'.books? = some u := by
        rintro c₁ ⟨call', p, hj, hbooks⟩ hi
        by_cases hji : j = i
        · subst hji
          obtain rfl : call = call' := congrArg Thread.call (Option.some.inj (hi.symm.trans hj))
          exact ⟨call, k r, Function.update_self .., hbooks⟩
        · exact ⟨call', p, (Function.update_of_ne hji _ _).trans hj, hbooks⟩
      rcases hx.cases with ⟨ch, r₀, s, hexec, -, rfl⟩ | ⟨e, -, rfl⟩
      · have hpart := walletSql.waits_all body_partOf hc ⟨k, hi⟩
        rcases effect_holder (exec_effect hexec) hpart hl with hl | ⟨rfl, hbooks⟩
        · exact hold (ih hl) hi
        · exact ⟨call, k r, Function.update_self .., hbooks⟩
      · exact hold (ih hl) hi
    · exact absurd hok (by simp [Undisturbed])
    · exact absurd hok (by simp [Undisturbed])

/-! ## Every run -/

theorem creationRules_sound : creationRules.Sound (fun c e =>
    walletSql.Reach Undisturbed (walletSql.init .empty) c ∧ Undisturbed c e) Ends where
  start c i call s hok hinv hi hs := by
    obtain rfl : c.state = s := Option.some.inj hs
    refine ⟨hinv, safe_body call (fun x hx hxi => ?_) (fun u hu => ?_), fun j _ _ _ => .refl j _⟩
    · obtain ⟨p, b, ht⟩ := walletSql.entry_started hok.1 x hx
      exact absurd (ht.symm.trans (hxi ▸ hi)) (by simp)
    · obtain ⟨call', p, ht, -⟩ := lock_holder hok.1 hu
      exact absurd (ht.symm.trans hi) (by simp)
  env c v s hok := absurd hok.2 (by simp [Undisturbed])
  cond _ _ _ _ _ _ _ _ _ _ := trivial
  modes c i m hok := by
    cases m with
    | ok ch => exact ⟨ch, rfl⟩
    | fail e => exact absurd hok.2 (by simp [Undisturbed])
    | lost ch e => exact absurd hok.2 (by simp [Undisturbed])
  rely c i m call o r w' _ _ hx hinv _ _ j call' o' hj _ := .of_exec hj hinv hx.exec
  post_run i call r j call' o w r' w' hji hinv hx _ h := by
    have hothers := Others.of_exec (Ne.symm hji) hinv hx
    exact ⟨hothers.unlocked h.unlocked, fun hu => hothers.endsWell
      (h.unrefused (hothers.unrefused.mp hu)), fun hn => h.refused (hothers.unrefused.not.mp hn)⟩
  post_start i call r call' w s _ hs h := by
    obtain rfl : w.state = s := Option.some.inj hs
    exact h
  post_env i call r v w s _ hv h := by
    obtain rfl : w.state.close v = s := Option.some.inj hv
    exact ⟨fun u hu => h.unlocked u (close_others hu), h.unrefused, h.refused⟩

theorem creation_good (h : walletSql.Reach Undisturbed (walletSql.init .empty) c) :
    Rules.Sound.Good creationRules Ends c :=
  creationRules_sound.reach SqlState.empty_locked h.reached

/-- How the calls of a run ended. -/
theorem ended_ends (h : walletSql.Reach Undisturbed (walletSql.init .empty) c) {call : WalletCall}
    {r : Except Err WalletReply} (hend : c.Ended i call r) : Ends i call r c.toWorld := by
  obtain ⟨p, hi, hp⟩ := hend
  have hsafe := (creation_good h).2 i call p hi
  cases p with
  | ret a => exact Option.some.inj hp ▸ hsafe
  | throw e => exact Option.some.inj hp ▸ hsafe
  | await o k => exact absurd hp (by simp [Prog.outcome])

/-! ## To the end -/

/-- The call has to wait for nobody. -/
structure Goes (i : Nat) (call : WalletCall) (s : SqlState) : Prop where
  reads : ∀ u, call = .getBalance u → s.locks u = none
  books : ∀ u, call.books? = some u → s.Free i u

variable {call : WalletCall} {o : SqlOp}

theorem Goes.exec (h : Goes i call s) (ho : o.PartOf call) (ch : WalletChoice) :
    ∃ r s', SqlState.exec i ch o s = some (r, s') := by
  -- a statement answers when it does in the open transaction
  have hsession : ∀ {α : Type} {f : Session → Option (Except Err α × SqlState)},
      (∀ x, ∃ r s', f x = some (r, s')) → ∃ r s', s.inSession i f = some (r, s') := by
    intro α f hf
    unfold inSession
    cases s.sessions i with
    | none => exact ⟨_, _, rfl⟩
    | some x => exact hf x
  cases o with
  | query q =>
    refine ⟨_, _, if_neg fun hw => ?_⟩
    cases q with
    | walletCreate u => exact hw.2 (h.reads u ho)
    | txFindOne | walletReplicaFindOne => exact hw
  | startTransaction => exact ⟨_, _, rfl⟩
  | walletSelectForUpdate u =>
    refine hsession fun x => ?_
    cases s.visible x u with
    | none => exact ⟨_, _, rfl⟩
    | some w => exact ⟨_, _, if_pos (h.books u ho)⟩
  | walletInsert u =>
    refine hsession fun x => ?_
    cases s.visible x u with
    | none => exact ⟨_, _, if_pos (h.books u ho)⟩
    | some w => exact ⟨_, _, rfl⟩
  | walletUpdate u w =>
    refine hsession fun x => ?_
    cases s.visible x u with
    | none => exact ⟨_, _, rfl⟩
    | some w' =>
      simp only [if_pos (h.books u ho)]
      split_ifs <;> exact ⟨_, _, rfl⟩
  | txInsert d =>
    refine hsession fun x => ?_
    split_ifs <;> exact ⟨_, _, rfl⟩
  | commitTransaction | rollbackTransaction => exact hsession fun x => ⟨_, _, rfl⟩

/-- It goes on so. -/
theorem Goes.effect (h : Goes i call s) (ho : o.PartOf call) (heff : Effect i s o s') :
    Goes i call s' := by
  refine ⟨fun u hu => ?_, fun u hu => ?_⟩
  · cases hl : s'.locks u with
    | none => rfl
    | some j =>
      rcases effect_holder heff ho hl with hl | ⟨-, hbooks⟩
      · exact absurd ((h.reads u hu).symm.trans hl) (by simp)
      · exact absurd hbooks (by simp [hu, WalletCall.books?])
  · cases hl : s'.locks u with
    | none => exact .inl hl
    | some j =>
      rcases effect_holder heff ho hl with hl' | ⟨rfl, -⟩
      · rcases h.books u hu with hnone | hsome
        · exact absurd (hnone.symm.trans hl') (by simp)
        · exact .inr (hl.trans (hl'.symm.trans hsome))
      · exact .inr hl

/-- No call has to, while nobody holds the row of its user. -/
theorem Goes.of_unlocked {u : Uuid} (hu : call = .getBalance u ∨ call.books? = some u)
    (hl : s.locks u = none) : Goes i call s := by
  refine ⟨fun v hv => ?_, fun v hv => .inl ?_⟩
  · rcases hu with rfl | hu
    · exact WalletCall.getBalance.inj hv ▸ hl
    · exact absurd hu (by simp [hv, WalletCall.books?])
  · rcases hu with rfl | hu
    · exact absurd hv (by simp [WalletCall.books?])
    · exact Option.some.inj (hu.symm.trans hv) ▸ hl

/-- The replica is up to date. -/
def upToDate (s : SqlState) : SqlOp → WalletChoice
  | .query (.walletReplicaFindOne userId) => { replica := s.committed.wallets userId }
  | _ => {}

theorem replicates_upToDate (s : SqlState) (past : List SqlState) (o : SqlOp) :
    o.Replicates (upToDate s o) (s :: past) := by
  cases o with
  | query q =>
    cases q with
    | walletReplicaFindOne u => exact ⟨s, List.mem_cons_self, rfl⟩
    | txFindOne | walletCreate => trivial
  | _ => trivial

/-- A call that has to wait for nobody can be run to its end. -/
theorem Goes.ends (h : walletSql.Reach Undisturbed (walletSql.init .empty) c)
    {p : Prog SqlSig WalletReply} (hi : c.threads i = some ⟨call, p, false⟩)
    (hgoes : Goes i call c.state) :
    ∃ c' r, walletSql.Reach Undisturbed c c' ∧ c'.Ended i call r ∧ Goes i call c'.state ∧
      ∀ j, j ≠ i → c'.threads j = c.threads j := by
  have hp := walletSql.each_thread (P := fun call o _ => SqlOp.PartOf call o)
    (fun call => .of_all (fun _ _ => id) (body_partOf call)) h hi
  refine Machine.reach_end (fun {c₁ o} hw ho hg => ?_) hp hi hgoes
  obtain ⟨r, s', hx⟩ := hg.exec ho (upToDate c₁.state o)
  refine ⟨.ok (upToDate c₁.state o), r, s', r.toBool, fun x hx => ?_, by simp [Machine.answer, hx],
    hg.effect ho (exec_effect hx)⟩
  obtain rfl := Option.some.inj (hw.waiting.symm.trans hx)
  exact replicates_upToDate c₁.state _ o

/-- A refused call did not end well. -/
theorem not_endsWell_refused {w : World walletSql} :
    ¬ EndsWell w i call (.error duplicateWallet) := by
  cases call with
  | getBalance u => simp [EndsWell]
  | deposit u dto => simp [EndsWell, LeftRange, duplicateWallet]
  | debit | credit => simp [EndsWell]

/-- **Every call that is under way can end**: whoever holds the row ends first. -/
theorem can_end (h : walletSql.Reach Undisturbed (walletSql.init .empty) c)
    (hw : c.Waits i call o) :
    ∃ c' r, walletSql.Reach Undisturbed c c' ∧ c'.Ended i call r := by
  obtain ⟨k, hi⟩ := hw
  obtain ⟨u, hu⟩ : ∃ u, call = .getBalance u ∨ call.books? = some u := by
    cases call with
    | getBalance u => exact ⟨u, .inl rfl⟩
    | deposit u | debit u | credit u => exact ⟨u, .inr rfl⟩
  cases hl : c.state.locks u with
  | none =>
    obtain ⟨c', r, hc', hend, -⟩ := Goes.ends h hi (.of_unlocked hu hl)
    exact ⟨c', r, hc', hend⟩
  | some j =>
    obtain ⟨call', p, hj, hbooks⟩ := lock_holder h hl
    have hgoes : Goes j call' c.state := by
      refine ⟨fun v hv => absurd hbooks (by simp [hv, WalletCall.books?]), fun v hv => .inr ?_⟩
      exact Option.some.inj (hbooks.symm.trans hv) ▸ hl
    obtain ⟨c₁, r₁, hc₁, hend₁, hgoes₁, hothers⟩ := Goes.ends h hj hgoes
    by_cases hji : i = j
    · subst hji
      obtain rfl : call = call' := congrArg Thread.call (Option.some.inj (hi.symm.trans hj))
      exact ⟨c₁, r₁, hc₁, hend₁⟩
    · have hl₁ : c₁.state.locks u = none := by
        rcases hgoes₁.books u hbooks with hl₁ | hl₁
        · exact hl₁
        · exact absurd hl₁ ((ended_ends (h.trans hc₁) hend₁).unlocked u)
      obtain ⟨c', r, hc', hend, -⟩ :=
        Goes.ends (h.trans hc₁) ((hothers i hji).trans hi) (.of_unlocked hu hl₁)
      exact ⟨c', r, hc₁.trans hc', hend⟩

end Creation

open Creation

/-- **Wallets are created on the way** in every state of a run without infrastructure failures whose
inserts all find no wallet; and in a run that is over, in no other. -/
theorem creates_wallets_iff {es : List (Event walletSql)} {c : Config walletSql}
    (hr : walletSql.replay (walletSql.init .empty) es = some c)
    (hu : walletSql.Meets Undisturbed (walletSql.init .empty) es) :
    (walletSql.Meets FindsNoWallet (walletSql.init .empty) es → CreatesWallets c) ∧
    (c.Quiet → CreatesWallets c → walletSql.Meets FindsNoWallet (walletSql.init .empty) es) := by
  have hreach : walletSql.Reach Undisturbed (walletSql.init .empty) c := .of_meets .init hr hu
  have hfinds := walletSql.meets_when_iff (P := fun _ _ o s => o.FindsNone s) hr
  constructor
  · intro hmeets
    have hnone := hfinds.mp hmeets
    exact ⟨fun i call r hend => (ended_ends hreach hend).unrefused fun x hx _ => hnone x hx,
      fun i call o hw => can_end hreach hw⟩
  · intro hquiet hcreates
    refine hfinds.mpr fun x hx => by_contra fun hn => ?_
    -- the thread of a refused insert has ended, with that error
    obtain ⟨p, b, ht⟩ := walletSql.entry_started hreach x hx
    obtain rfl : b = false :=
      walletSql.not_crashed (fun c i => by simp [Undisturbed]) hreach ht
    obtain ⟨r, hend⟩ : ∃ r, c.Ended x.tid x.call r := by
      cases p with
      | ret a => exact ⟨_, _, ht, rfl⟩
      | throw e => exact ⟨_, _, ht, rfl⟩
      | await o k => exact absurd ⟨k, ht⟩ (hquiet x.tid x.call o)
    obtain rfl := (ended_ends hreach hend).refused fun hu => hn (hu x hx rfl)
    exact not_endsWell_refused (hcreates.ended _ _ _ hend)

/-- User 7 deposits, and has a wallet. -/
def deposits : List (Event walletSql) :=
  [.spawn 0 (.deposit 7 ⟨620, 1, by decide, by decide⟩), .run 0 (.ok {}), .run 0 (.ok {}),
   .run 0 (.ok {}), .run 0 (.ok { freshWallet := 70 }), .run 0 (.ok {}),
   .run 0 (.ok { fresh := 71 }), .run 0 (.ok {})]

/-- A balance that is read from this replica. -/
def readsFrom (replica : Option Wallet) : List (Event walletSql) :=
  [.spawn 1 (.getBalance 7), .run 1 (.ok { replica := replica })]

/-- The replica has seen the deposit. -/
theorem creates_wallets_in_turn : ∃ c, walletSql.replay (walletSql.init .empty)
      (deposits ++ readsFrom (some ⟨70, 620⟩)) = some c ∧
    c.Ended 1 (.getBalance 7) (.ok (.balance ⟨620, formatCents 620⟩)) ∧ CreatesWallets c := by
  obtain ⟨c, hr, hend⟩ : ∃ c, walletSql.replay (walletSql.init .empty)
        (deposits ++ readsFrom (some ⟨70, 620⟩)) = some c ∧
      c.Ended 1 (.getBalance 7) (.ok (.balance ⟨620, formatCents 620⟩)) := ⟨_, rfl, _, rfl, rfl⟩
  exact ⟨c, hr, hend, (creates_wallets_iff hr (by decide)).1 (by decide)⟩

/-- **The replica lags behind**: the wallet of the deposit has not reached it. And two first
deposits at once: the second finds the wallet of the first. -/
theorem creation_refused :
    (∃ c, walletSql.Reach Undisturbed (walletSql.init .empty) c ∧
      c.Ended 1 (.getBalance 7) (.error duplicateWallet) ∧ ¬ CreatesWallets c) ∧
    ∃ c, walletSql.Reach Undisturbed (walletSql.init .empty) c ∧
      c.Ended 1 (.deposit 7 ⟨300, 2, by decide, by decide⟩) (.error duplicateWallet) ∧
      ¬ CreatesWallets c := by
  constructor
  · obtain ⟨c, hr, hend⟩ : ∃ c, walletSql.replay (walletSql.init .empty)
          (deposits ++ readsFrom none ++ [.run 1 (.ok {})]) = some c ∧
        c.Ended 1 (.getBalance 7) (.error duplicateWallet) := ⟨_, rfl, _, rfl, rfl⟩
    exact ⟨c, .of_meets .init hr (by decide), hend,
      fun h => not_endsWell_refused (h.ended _ _ _ hend)⟩
  · obtain ⟨c, hr, hend⟩ : ∃ c, walletSql.replay (walletSql.init .empty) firstWalletRace = some c ∧
        c.Ended 1 (.deposit 7 ⟨300, 2, by decide, by decide⟩) (.error duplicateWallet) :=
      ⟨_, rfl, _, rfl, rfl⟩
    exact ⟨c, .of_meets .init hr (by decide), hend,
      fun h => not_endsWell_refused (h.ended _ _ _ hend)⟩

end BoltBet
