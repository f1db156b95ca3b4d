import BoltBet.Async.History
import BoltBet.Async.Knowledge
import BoltBet.Wallet.Ledger

/-!
# Once per idempotency key

`deposit`, `debit` and `credit` look for an existing row of their key (user, type, reference id)
before, and outside, the transaction that appends it. The index on `referenceId` is not unique, so
two calls that both looked before either committed append two rows and move the balance twice
(`walletPool_two_rows`).

The one thing a call knows when its transaction runs: a row of its key that is there by now was
committed since its own lookup (`Known`, kept by `Idempotency.knowledge`). Whatever the calls do,
each key moves its user's balance by its rows and by nothing else (`Books`). Hence

* `walletPool_applied_once_iff`: throughout a run each key is applied once (`AppliedOnce`) exactly
  when every transaction that committed did so with no other one of its key committed since its
  call's lookup, and no deposit was answered by rows of other types only.
-/

namespace BoltBet

open Async

namespace WalletDb

/-- At most one row for each key. -/
def OneRow (db : WalletDb) : Prop := ∀ u t ref, (db.rowsFor u t ref).length ≤ 1

end WalletDb

/-- The transactions of an idempotency key. -/
def WalletOp.Applies (u : Uuid) (t : TransactionType) (ref : Uuid) (o : WalletOp) : Prop :=
  ∃ a d, o = .applyTransaction u t a (some ref) d

instance (u : Uuid) (t : TransactionType) (ref : Uuid) :
    DecidablePred (WalletOp.Applies u t ref)
  | .query _ => isFalse fun ⟨_, _, h⟩ => nomatch h
  | .applyTransaction u' t' a ref' d =>
    decidable_of_iff (u' = u ∧ t' = t ∧ ref' = some ref) <| by
      simp [WalletOp.Applies]

/-- What the transactions of a key moved the balance of its user by, in a run that led to `db`. -/
def movedBy (u : Uuid) (t : TransactionType) (ref : Uuid) :
    WalletDb → List (Entry walletPool) → Int
  | _, [] => 0
  | db, x :: l =>
    (if WalletOp.Applies u t ref x.op then db.balanceOf u - x.before.balanceOf u else 0) +
      movedBy u t ref x.before l

/-- The call asks to move the amount under the key. -/
def WalletCall.Asks (u : Uuid) (t : TransactionType) (amountCents : Int) (ref : Uuid) :
    WalletCall → Prop
  | .getBalance _ => False
  | .deposit userId dto =>
    u = userId ∧ t = .DEPOSIT ∧ amountCents = dto.amountCents ∧ ref = dto.clientMutationId
  | .debit userId amount _ referenceId _ =>
    u = userId ∧ t = .DEBIT ∧ amountCents = amount ∧ ref = referenceId
  | .credit userId amount _ referenceId _ =>
    u = userId ∧ t = .CREDIT ∧ amountCents = amount ∧ ref = referenceId

/-- **Each key is applied once.** -/
structure AppliedOnce (c : Config walletPool) : Prop where
  /-- A key has at most one row, -/
  one : c.state.OneRow
  /-- which a started call of the key asked for. -/
  asked : ∀ tx ∈ c.state.walletTransactions, ∃ ref, tx.referenceId = some ref ∧
    ∃ i call, c.Started i call ∧ call.Asks tx.userId tx.type tx.amountCents ref
  /-- The calls of a key moved the balance by its row, -/
  moved : ∀ u t ref, movedBy u t ref c.state c.trace = netOf (c.state.rowsFor u t ref)
  /-- and nothing but the rows moved it. -/
  balance : ∀ u, c.state.balanceOf u = netOf (c.state.rowsOf u)
  /-- A call that returned has its row. -/
  returned : ∀ i call r, c.Returned i call r → ∀ u t a ref, call.Asks u t a ref →
    ∃ tx, c.state.rowsFor u t ref = [tx]
  /-- Any number of calls of one key and amount, one of which returned, moved it exactly once. -/
  once : ∀ i call r, c.Returned i call r → ∀ u t a ref, call.Asks u t a ref →
    (∀ j call' b, c.Started j call' → call'.Asks u t b ref → b = a) →
    movedBy u t ref c.state c.trace = if t = .DEBIT then -a else a

/-- A transaction of the key committed since the last operation of thread `i`. -/
def Disturbed (w : World walletPool) (i : Nat) (u : Uuid) (t : TransactionType) (ref : Uuid) :
    Prop :=
  ∃ e ∈ w.since i, e.took = true ∧ WalletOp.Applies u t ref e.op

/-- **What a call knows before its operation `o`**: when `o` is a transaction, a row of its key
was committed since the call's own lookup. -/
def Known (i : Nat) (o : WalletOp) (w : World walletPool) : Prop :=
  ∀ u t ref, o.Applies u t ref → w.state.rowsFor u t ref ≠ [] → Disturbed w i u t ref

/-- A transaction that took effect left its row. -/
def Recorded (w : World walletPool) : Prop :=
  ∀ e ∈ w.trace, e.took = true → ∀ u t ref, WalletOp.Applies u t ref e.op →
    w.state.rowsFor u t ref ≠ []

namespace Idempotency

/-! ## One operation -/

/-- What one operation does to the rows of a key. -/
theorem exec_rowsFor {i : Nat} {call : WalletCall} {o : WalletOp} {w w' : World walletPool}
    {r : Except Err o.Res} (hx : walletPool.Exec i call o w r w') :
    ∃ took, w'.trace = ⟨i, call, o, took, w.state⟩ :: w.trace ∧ ∀ u t ref,
      (w'.state.rowsFor u t ref = w.state.rowsFor u t ref ∧
        ¬ (took = true ∧ o.Applies u t ref)) ∨
      (took = true ∧ o.Applies u t ref ∧
        ∃ tx, w'.state.rowsFor u t ref = w.state.rowsFor u t ref ++ [tx]) := by
  rcases hx.cases with ⟨ch, r₀, s, hs, -, rfl⟩ | ⟨e, -, rfl⟩
  · refine ⟨_, rfl, fun u t ref => ?_⟩
    rcases WalletDb.exec_rows (Option.some.inj hs) with ⟨hrows, hno⟩ |
      ⟨u', t', a, ref', d, tx, rfl, htook, hu, ht, -, href, hrows⟩
    · refine .inl ⟨by unfold WalletDb.rowsFor; rw [hrows], ?_⟩
      rintro ⟨htook, a, d, rfl⟩
      exact absurd (htook.symm.trans (hno _ _ _ _ _ rfl)) (by simp)
    · unfold WalletDb.rowsFor
      rw [hrows, List.filter_append]
      by_cases hm : tx.Matches u ref (some t)
      · obtain ⟨rfl, hr, htt⟩ := hm
        obtain rfl := htt t rfl
        refine .inr ⟨htook, ?_, tx, ?_⟩
        · subst hu ht href
          exact ⟨a, d, by rw [hr]⟩
        · rw [List.filter_cons_of_pos (by simpa using ⟨rfl, hr, htt⟩), List.filter_nil]
      · refine .inl ⟨?_, ?_⟩
        · rw [List.filter_cons_of_neg (by simpa using hm), List.filter_nil, List.append_nil]
        · rintro ⟨-, a', d', ho⟩
          obtain ⟨rfl, rfl, rfl, rfl, rfl⟩ : u' = u ∧ t' = t ∧ a = a' ∧ ref' = some ref ∧
            d = d' := by simpa using ho
          refine hm ⟨hu, href, fun t ht' => ?_⟩
          rwa [← Option.some.inj ht']
  · refine ⟨false, rfl, fun u t ref => .inl ⟨rfl, ?_⟩⟩
    rintro ⟨h, -⟩
    exact absurd h (by simp)

section Steps

variable {i j : Nat} {call : WalletCall} {o : WalletOp} {w w' : World walletPool}
  {r : Except Err o.Res}

theorem recorded_exec (hx : walletPool.Exec i call o w r w') (h : Recorded w) : Recorded w' := by
  obtain ⟨took, htr, hrows⟩ := exec_rowsFor hx
  intro e he htook u t ref ho
  rcases hrows u t ref with ⟨heq, hno⟩ | ⟨-, -, tx, heq⟩
  · rw [heq]
    rw [htr] at he
    rcases List.mem_cons.mp he with rfl | he
    · exact absurd ⟨htook, ho⟩ hno
    · exact h e he htook u t ref ho
  · rw [heq]
    simp

/-- What `j` knows survives an operation of another thread. -/
theorem known_exec (hx : walletPool.Exec i call o w r w') (hj : j ≠ i) {o' : WalletOp}
    (hk : Known j o' w) : Known j o' w' := by
  obtain ⟨took, htr, hrows⟩ := exec_rowsFor hx
  have hsince := World.since_ne (Ne.symm hj) htr
  intro u t ref ho hne
  rcases hrows u t ref with ⟨heq, -⟩ | ⟨htook, happ, -⟩
  · obtain ⟨e, he, hd⟩ := hk u t ref ho (heq ▸ hne)
    exact ⟨e, hsince ▸ List.mem_cons_of_mem _ he, hd⟩
  · exact ⟨_, hsince ▸ List.mem_cons_self, htook, happ⟩

/-- A lookup that found nothing: there is no row of its key. -/
theorem lookup_none {u ref : Uuid} {t : Option TransactionType}
    (hx : walletPool.Exec i call (.query (.txFindOne u ref t)) w (.ok none) w')
    {t' : TransactionType} (ht : ∀ s ∈ t, t' = s) : w'.state.rowsFor u t' ref = [] := by
  obtain ⟨ch, s, hs, rfl⟩ := hx.ok_cases
  obtain ⟨hp, rfl⟩ := Prod.mk.inj (Option.some.inj hs)
  have hnil := pickOne_eq_none (Except.ok.inj hp)
  refine List.filter_eq_nil_iff.mpr fun tx htx hm => ?_
  obtain ⟨hu, hr, htt⟩ : tx.Matches u ref (some t') := by simpa using hm
  refine List.filter_eq_nil_iff.mp hnil tx htx ?_
  simpa using show tx.Matches u ref t from ⟨hu, hr, fun s hs => (htt t' rfl).trans (ht s hs)⟩

/-- A transaction of a key moves the balance by the row it appends. -/
theorem exec_balance (hdb : w.state.Ledger) (ho : o.Positive) {u ref : Uuid} {t : TransactionType}
    (happ : o.Applies u t ref) (hx : walletPool.Exec i call o w r w') :
    w'.state.balanceOf u - w.state.balanceOf u =
      netOf (w'.state.rowsFor u t ref) - netOf (w.state.rowsFor u t ref) := by
  obtain ⟨a, d, rfl⟩ := happ
  rcases hx.cases with ⟨ch, r₀, s, hs, -, rfl⟩ | ⟨e, -, rfl⟩
  · have hexec := Option.some.inj hs
    have hdb' : s.Ledger := WalletDb.exec_ledger hdb ho hexec
    rw [show s.balanceOf u = _ from hdb'.balance_eq u, hdb.balance_eq u]
    rcases WalletDb.exec_rows hexec with ⟨hrows, -⟩ |
      ⟨u', t', a', ref', d', tx, heq, -, hu, ht, -, href, hrows⟩
    · simp only [WalletDb.rowsOf, WalletDb.rowsFor, hrows, sub_self]
    · obtain ⟨rfl, rfl, -, rfl, -⟩ : u = u' ∧ t = t' ∧ a = a' ∧ some ref = ref' ∧ d = d' := by
        simpa using heq
      have hm : tx.Matches u ref (some t) := ⟨hu, href, fun s hs => ht.trans (Option.some.inj hs)⟩
      simp only [WalletDb.rowsOf, WalletDb.rowsFor, hrows, List.filter_append, netOf_append,
        List.filter_singleton, hu, hm, decide_true, cond_true, add_sub_cancel_left]
  · simp only [sub_self]

/-- What holds of the books after every operation: each key moved the balance by its rows, and each
row is what some operation wrote. -/
structure Books (w : World walletPool) : Prop where
  ledger : w.state.Ledger
  moved : ∀ u t ref, movedBy u t ref w.state w.trace = netOf (w.state.rowsFor u t ref)
  written : ∀ tx ∈ w.state.walletTransactions, ∃ x ∈ w.trace, ∃ d,
    x.op = .applyTransaction tx.userId tx.type tx.amountCents tx.referenceId d

theorem books_exec (h : Books w) (ho : o.Positive) (hx : walletPool.Exec i call o w r w') :
    Books w' := by
  obtain ⟨took, htr, hrows⟩ := exec_rowsFor hx
  refine ⟨?_, fun u t ref => ?_, ?_⟩
  · rcases hx.cases with ⟨ch, r₀, s, hs, -, rfl⟩ | ⟨e, -, rfl⟩
    · exact WalletDb.exec_ledger h.ledger ho (Option.some.inj hs)
    · exact h.ledger
  · rw [htr]
    simp only [movedBy, h.moved]
    split
    · rename_i happ
      have := exec_balance h.ledger ho happ hx
      omega
    · rename_i happ
      rcases hrows u t ref with ⟨heq, -⟩ | ⟨-, happ', -⟩
      · rw [heq, zero_add]
      · exact absurd happ' happ
  · have hold : ∀ tx ∈ w.state.walletTransactions, ∃ x ∈ w'.trace, ∃ d,
        x.op = .applyTransaction tx.userId tx.type tx.amountCents tx.referenceId d := by
      intro tx htx
      obtain ⟨x, hx, hop⟩ := h.written tx htx
      exact ⟨x, htr ▸ List.mem_cons_of_mem _ hx, hop⟩
    rcases hx.cases with ⟨ch, r₀, s, hs, -, rfl⟩ | ⟨e, -, rfl⟩
    · rcases WalletDb.exec_rows (Option.some.inj hs) with ⟨heq, -⟩ |
        ⟨u, t, a, ref, d, tx', rfl, -, rfl, rfl, rfl, rfl, heq⟩
      · exact fun tx htx => hold tx (heq ▸ htx)
      · intro tx htx
        rcases List.mem_append.mp (heq ▸ htx) with htx | htx
        · exact hold tx htx
        · obtain rfl := List.mem_singleton.mp htx
          exact ⟨_, List.mem_cons_self, d, rfl⟩
    · exact hold

end Steps

/-! ## The calls -/

/-- A call moves money as it asks to. -/
def Asked (call : WalletCall) : WalletOp → Prop
  | .query _ => True
  | .applyTransaction u t a ref _ => 0 < a ∧ ∃ r, ref = some r ∧ call.Asks u t a r

/-- The answers that end a call: its transaction committed, or its lookup found a row. -/
def Ends (call : WalletCall) (x : Seen WalletSig) : Prop :=
  ∀ u t a ref, call.Asks u t a ref →
    (∃ d dto, x = ⟨.applyTransaction u t a (some ref) d, .ok dto⟩) ∨
    ∃ type tx, x = ⟨.query (.txFindOne u ref type), .ok (some tx)⟩ ∧
      (type = some t ∨ type = none ∧ t = .DEPOSIT)

/-- A call goes on as its kind does: it returns on such an answer only, and on every row found. -/
def GoesOn (call : WalletCall) (o : WalletOp)
    (k : Except Err o.Res → Prog WalletSig WalletReply) : Prop :=
  (∀ r b, k r = .ret b → Ends call ⟨o, r⟩) ∧
    ∀ r, (∃ u ref type tx, (⟨o, r⟩ : Seen WalletSig) =
      ⟨.query (.txFindOne u ref type), .ok (some tx)⟩) → ∃ b, k r = .ret b

/-- `getBalance` looks for no transaction and appends none. -/
theorem all_getBalance (u : Uuid) :
    (WalletService.getBalance u).All fun o => ∃ q, o = WalletOp.query q ∧
      ∀ u ref type, q ≠ .txFindOne u ref type := by
  refine .bind (.bind (Prog.All.perform (S := WalletSig) ⟨_, rfl, by simp⟩) fun w => ?_)
    fun _ => trivial
  cases w with
  | some w => trivial
  | none => exact Prog.All.perform (S := WalletSig) ⟨_, rfl, by simp⟩

section Shape

variable {call : WalletCall} {u ref : Uuid} {type : Option TransactionType} {t : TransactionType}
  {a : Int} {desc : String}
  {f : Option WalletTransaction → Prog WalletSig TransactionResponseDto}
  (hsome : ∀ tx, ∃ dto, f (some tx) = .ret dto)
  (hnone : f none = WalletService.applyTransaction u t a (some ref) desc)
include hsome hnone

/-- A lookup, and a transaction when it finds nothing. -/
theorem all_lookup_then (ha : 0 < a) (hasks : call.Asks u t a ref) :
    (WalletReply.transaction <$> (WalletService.txFindOne u ref type >>= f)).All (Asked call) := by
  refine .map (.bind (Prog.All.perform (S := WalletSig) trivial) fun found => ?_)
  cases found with
  | some tx =>
    obtain ⟨dto, hdto⟩ := hsome tx
    rw [hdto]
    trivial
  | none =>
    rw [hnone]
    exact Prog.All.perform (S := WalletSig) ⟨ha, ref, rfl, hasks⟩

theorem each_lookup_then (hasks : ∀ u' t' a' ref', call.Asks u' t' a' ref' → u' = u ∧ t' = t ∧
      a' = a ∧ ref' = ref ∧ (type = some t' ∨ type = none ∧ t' = .DEPOSIT)) :
    (WalletReply.transaction <$> (WalletService.txFindOne u ref type >>= f)).Each
      (GoesOn call) := by
  rw [map_eq_pure_bind, LawfulMonad.bind_assoc]
  refine .perform_bind (S := WalletSig) ⟨fun r b hb => ?_, fun r hr => ?_⟩ fun found => ?_
  · rcases r with e | _ | tx
    · exact absurd hb (by simp [Prog.ofExcept])
    · simp [Prog.ofExcept, hnone, WalletService.applyTransaction, Prog.perform] at hb
    · intro u' t' a' ref' h
      obtain ⟨rfl, rfl, rfl, rfl, ht⟩ := hasks u' t' a' ref' h
      exact .inr ⟨type, tx, rfl, ht⟩
  · obtain ⟨u', ref', type', tx, heq⟩ := hr
    cases heq
    obtain ⟨dto, hdto⟩ := hsome tx
    exact ⟨.transaction dto, by simp [Prog.ofExcept, hdto]⟩
  · cases found with
    | some tx =>
      obtain ⟨dto, hdto⟩ := hsome tx
      rw [hdto]
      trivial
    | none =>
      rw [hnone]
      refine .perform_bind (S := WalletSig) ⟨fun r b hb => ?_, fun r hr => ?_⟩ fun _ => trivial
      · rcases r with e | dto
        · exact absurd hb (by simp [Prog.ofExcept])
        · intro u' t' a' ref' h
          obtain ⟨rfl, rfl, rfl, rfl, -⟩ := hasks u' t' a' ref' h
          exact .inl ⟨desc, dto, rfl⟩
      · obtain ⟨u', ref', type', tx, heq⟩ := hr
        exact absurd (congrArg Seen.op heq) (by simp)

end Shape

theorem all_asked (call : WalletCall) : call.body.All (Asked call) := by
  cases call with
  | getBalance u =>
    refine .map ((all_getBalance u).mono ?_)
    rintro o ⟨q, rfl, -⟩
    trivial
  | deposit u dto =>
    have hpos : 0 < dto.amountCents := lt_of_lt_of_le (by decide) dto.min
    exact all_lookup_then (fun _ => ⟨_, rfl⟩) rfl hpos ⟨rfl, rfl, rfl, rfl⟩
  | debit u a ha ref desc => exact all_lookup_then (fun _ => ⟨_, rfl⟩) rfl ha ⟨rfl, rfl, rfl, rfl⟩
  | credit u a ha ref desc =>
    exact all_lookup_then (fun _ => ⟨_, rfl⟩) rfl ha ⟨rfl, rfl, rfl, rfl⟩

theorem each_goesOn (call : WalletCall) : call.body.Each (GoesOn call) := by
  cases call with
  | getBalance u =>
    refine .of_all (fun o k ho => ⟨fun _ _ _ _ _ _ _ h => h.elim, ?_⟩) (.map (all_getBalance u))
    obtain ⟨q, rfl, hq⟩ := ho
    rintro r ⟨u', ref', type', tx, heq⟩
    exact absurd (WalletOp.query.inj (congrArg Seen.op heq)) (hq u' ref' type')
  | deposit u dto =>
    refine each_lookup_then (fun _ => ⟨_, rfl⟩) rfl ?_
    rintro _ _ _ _ ⟨hu, ht, ha, hr⟩
    exact ⟨hu, ht, ha, hr, .inr ⟨rfl, ht⟩⟩
  | debit u a ha ref desc =>
    refine each_lookup_then (fun _ => ⟨_, rfl⟩) rfl ?_
    rintro _ _ _ _ ⟨hu, ht, ha, hr⟩
    exact ⟨hu, ht, ha, hr, .inl (ht ▸ rfl)⟩
  | credit u a ha ref desc =>
    refine each_lookup_then (fun _ => ⟨_, rfl⟩) rfl ?_
    rintro _ _ _ _ ⟨hu, ht, ha, hr⟩
    exact ⟨hu, ht, ha, hr, .inl (ht ▸ rfl)⟩

/-- Every thread knows its rows. -/
def knowledge : Knowledge walletPool where
  inv := Recorded
  le _ _ := True
  K i _ := Known i
  cond _ _ _ _ _ _ := True
  refl _ := trivial
  trans _ _ := trivial
  exec hinv _ _ hx := ⟨recorded_exec hx hinv, trivial, fun _ _ _ hj => known_exec hx hj⟩
  start hs hinv := Option.some.inj hs ▸ ⟨hinv, trivial, fun _ _ _ => id⟩
  env {v} := nomatch v

theorem known_query (i : Nat) (q : WalletQuery) (w : World walletPool) : Known i (.query q) w := by
  rintro u t ref ⟨a, d, h⟩
  exact absurd h (by simp)

/-- The shape of `deposit`, `debit` and `credit`: look for a row, then append one. -/
theorem safe_lookup_then {i : Nat} {call : WalletCall} {u ref : Uuid}
    {t : Option TransactionType} {t' : TransactionType} (ht : ∀ s ∈ t, t' = s) (a : Int)
    (desc : String) (f : WalletTransaction → TransactionResponseDto) (w : World walletPool) :
    knowledge.rules.Safe i call (fun _ _ => True) (do
      match ← WalletService.txFindOne u ref t with
      | some existing => return f existing
      | none => WalletService.applyTransaction u t' a (some ref) desc) w := by
  refine Rules.safe_bind.mpr (Knowledge.safe_op' (known_query i _ w) fun {_ r w'} _ _ hx _ => ?_)
  rcases r with e | _ | existing
  · trivial
  · have hknown : Known i (.applyTransaction u t' a (some ref) desc) w' := by
      rintro u₁ t₁ ref₁ ⟨a₁, d₁, ho⟩ hne
      obtain ⟨rfl, rfl, -, rfl, -⟩ : u = u₁ ∧ t' = t₁ ∧ a = a₁ ∧ ref = ref₁ ∧ desc = d₁ := by
        simpa using ho
      exact absurd (lookup_none hx ht) hne
    exact Knowledge.safe_op' hknown fun _ _ _ _ => trivial
  · trivial

theorem safe_body {i : Nat} (call : WalletCall) (w : World walletPool) :
    knowledge.rules.Safe i call (fun _ _ => True) call.body w := by
  have hmap : ∀ {β : Type} {p : Prog WalletSig β} {f : β → WalletReply},
      knowledge.rules.Safe i call (fun _ _ => True) p w →
      knowledge.rules.Safe i call (fun _ _ => True) (f <$> p) w := by
    intro β p f hp
    rw [map_eq_pure_bind]
    exact Rules.safe_seq hp (fun _ _ _ => trivial) fun _ _ _ => trivial
  cases call with
  | getBalance u =>
    refine hmap (Knowledge.safe_of_known ?_ (all_getBalance u) _)
    rintro o ⟨q, rfl, -⟩ w
    exact known_query i q w
  | deposit u dto => exact hmap (safe_lookup_then (by simp) _ _ _ w)
  | debit u a ha ref desc => exact hmap (safe_lookup_then (by simp) _ _ _ w)
  | credit u a ha ref desc => exact hmap (safe_lookup_then (by simp) _ _ _ w)

/-- In every run: what took effect left its row, and every waiting call knows its rows. -/
theorem reach {c : Config walletPool} (h : walletPool.Reachable (walletPool.init .empty) c) :
    Recorded c.toWorld ∧ ∀ i call o, c.Waits i call o → Known i o c.toWorld := by
  obtain ⟨hinv, hK, -⟩ := Knowledge.reach (D := knowledge) (fun _ => trivial) (fun _ _ _ _ => True)
    (fun _ _ _ _ _ _ _ _ _ _ => trivial) (fun _ _ _ _ _ _ h => h)
    (fun _ call w _ => safe_body call w)
    (fun _ hy => absurd hy (by simp)) h
  exact ⟨hinv, fun i call o hw => hK i call o hw fun _ _ => trivial⟩

/-- The books of every run. -/
theorem books_reach {c : Config walletPool}
    (h : walletPool.Reachable (walletPool.init .empty) c) : Books c.toWorld := by
  refine h.follow ⟨WalletDb.ledger_empty, fun _ _ _ => rfl, nofun⟩ ?_ ?_ ?_
  · rintro call s s' l hs hb
    exact Option.some.inj hs ▸ hb
  · exact nofun
  · intro c c' i m call o r hc _ hw _ hx hb
    have hasked := walletPool.waits_all all_asked hc hw
    refine books_exec hb ?_ hx
    cases o with
    | query q => trivial
    | applyTransaction u t a ref d => exact hasked.1

/-- Each row is one that a started call asked for. -/
theorem rows_asked {c : Config walletPool}
    (h : walletPool.Reachable (walletPool.init .empty) c) :
    ∀ tx ∈ c.state.walletTransactions, ∃ ref, tx.referenceId = some ref ∧
      ∃ i call, c.Started i call ∧ call.Asks tx.userId tx.type tx.amountCents ref := by
  intro tx htx
  obtain ⟨x, hx, d, hop⟩ := (books_reach h).written tx htx
  obtain ⟨c', hc', hw, -, -⟩ := walletPool.waited_of_trace h hx
  have hasked : Asked x.call x.op := walletPool.waits_all all_asked hc' hw
  rw [hop] at hasked
  obtain ⟨-, ref, href, hasks⟩ := hasked
  exact ⟨ref, href, x.tid, x.call, walletPool.entry_started h x hx, hasks⟩

/-- A key with one row moved the balance by the amount that its calls ask for. -/
theorem moved_once {c : Config walletPool} (h : walletPool.Reachable (walletPool.init .empty) c)
    {u ref : Uuid} {t : TransactionType} {a : Int} {tx : WalletTransaction}
    (hrow : c.state.rowsFor u t ref = [tx])
    (hsame : ∀ i call b, c.Started i call → call.Asks u t b ref → b = a) :
    movedBy u t ref c.state c.trace = if t = .DEBIT then -a else a := by
  have hmem : tx ∈ c.state.rowsFor u t ref := by simp [hrow]
  obtain ⟨htx, hm⟩ := List.mem_filter.mp hmem
  obtain ⟨rfl, href, htype⟩ : tx.Matches u ref (some t) := by simpa using hm
  obtain rfl := htype t rfl
  obtain ⟨ref', href', i, call, hstarted, hasks⟩ := rows_asked h tx htx
  obtain rfl : ref = ref' := Option.some.inj (href.symm.trans href')
  rw [(books_reach h).moved, hrow, netOf_singleton, ← hsame i call _ hstarted hasks]
  rfl

end Idempotency

/-! ## Runs -/

/-- **The condition**: when `e` commits a transaction, no transaction of its key committed since
its call's lookup. -/
def Isolated (c : Config walletPool) (e : Event walletPool) : Prop :=
  ∀ x, walletPool.Executes c e x → x.took = true →
    ∀ u t ref, WalletOp.Applies u t ref x.op → ¬ Disturbed c.toWorld x.tid u t ref

/-- One step keeps at most one row per key exactly when it satisfies the condition. -/
theorem Idempotency.one_row_step {c c' : Config walletPool} {e : Event walletPool}
    (hc : walletPool.Reachable (walletPool.init .empty) c) (h1 : c.state.OneRow)
    (hs : walletPool.step c e = some c') : c'.state.OneRow ↔ Isolated c e := by
  obtain ⟨hrec, hknown⟩ := reach hc
  have hnone : c'.toWorld = c.toWorld → (c'.state.OneRow ↔ Isolated c e) := by
    intro hw
    refine ⟨fun _ x ⟨c₂, hs₂, hx⟩ => ?_, fun _ => by rw [hw]; exact h1⟩
    obtain rfl := Option.some.inj (hs.symm.trans hs₂)
    rw [hw] at hx
    exact absurd hx.symm (List.cons_ne_self x _)
  rcases walletPool.step_cases hs with ⟨i, call, s, rfl, -, hst, rfl⟩ |
    ⟨i, m, call, o, k, r, w', rfl, hi, hx, rfl⟩ | ⟨i, call, o, k, rfl, -, rfl⟩ |
    ⟨v, s, rfl, hv, rfl⟩
  · obtain rfl : c.state = s := Option.some.inj hst
    exact hnone rfl
  · obtain ⟨took, htr, hrows⟩ := exec_rowsFor hx
    constructor
    · rintro h1' x ⟨c₂, hs₂, hx₂⟩ htook u t ref happ ⟨e, he, hetook, heapp⟩
      obtain rfl := Option.some.inj (hs.symm.trans hs₂)
      obtain rfl := (List.cons.inj (htr.symm.trans hx₂)).1
      have hne := hrec e (World.mem_trace_of_since he) hetook u t ref heapp
      rcases hrows u t ref with ⟨-, hno⟩ | ⟨-, -, tx, heq⟩
      · exact hno ⟨htook, happ⟩
      · have hlen := h1' u t ref
        rw [heq, List.length_append, List.length_singleton] at hlen
        have := List.length_pos_iff.mpr hne
        omega
    · intro hiso u t ref
      rcases hrows u t ref with ⟨heq, -⟩ | ⟨htook, happ, tx, heq⟩
      · rw [heq]
        exact h1 u t ref
      · have hk : Known i o c.toWorld := hknown i call o ⟨k, hi⟩
        have hnil : c.state.rowsFor u t ref = [] := by
          by_contra hne
          exact hiso _ ⟨_, hs, htr⟩ htook u t ref happ (hk u t ref happ hne)
        rw [heq, hnil]
        simp
  · exact hnone rfl
  · exact nomatch v

/-- **The other condition**: when the lookup of a deposit is answered and a row of its user has its
reference id, a deposit row has. -/
def KeyedLookup (c : Config walletPool) : Event walletPool → Prop
  | .run i (.ok _) => ∀ u dto,
    c.Waits i (.deposit u dto) (.query (.txFindOne u dto.clientMutationId none)) →
    (∃ tx ∈ c.state.walletTransactions, tx.Matches u dto.clientMutationId none) →
    c.state.rowsFor u .DEPOSIT dto.clientMutationId ≠ []
  | _ => True

namespace Idempotency

section Steps

variable {c c' : Config walletPool} {e : Event walletPool}

/-- Rows are never deleted. -/
theorem rowsFor_step (hs : walletPool.step c e = some c') {u ref : Uuid} {t : TransactionType}
    (hne : c.state.rowsFor u t ref ≠ []) : c'.state.rowsFor u t ref ≠ [] := by
  rcases walletPool.step_cases hs with ⟨i, call, s, rfl, -, hst, rfl⟩ |
    ⟨i, m, call, o, k, r, w', rfl, hi, hx, rfl⟩ | ⟨i, call, o, k, rfl, -, rfl⟩ |
    ⟨v, s, rfl, hv, rfl⟩
  · exact Option.some.inj hst ▸ hne
  · obtain ⟨took, -, hrows⟩ := exec_rowsFor hx
    rcases hrows u t ref with ⟨heq, -⟩ | ⟨-, -, tx, heq⟩
    · exact heq ▸ hne
    · simp [heq]
  · exact hne
  · exact nomatch v

/-- A row that matches is one of its key. -/
theorem rowsFor_ne_nil {db : WalletDb} {tx : WalletTransaction} {u ref : Uuid}
    {t : TransactionType} (htx : tx ∈ db.walletTransactions) (hm : tx.Matches u ref (some t)) :
    db.rowsFor u t ref ≠ [] :=
  List.ne_nil_of_mem (List.mem_filter.mpr ⟨htx, by simpa using hm⟩)

/-- **A call that returns has a row of its key**, after a step that meets the condition. -/
theorem returned_row (hc : walletPool.Reachable (walletPool.init .empty) c) (hkey : KeyedLookup c e)
    (hold : ∀ i call r, c.Returned i call r → ∀ u t a ref, call.Asks u t a ref →
      c.state.rowsFor u t ref ≠ [])
    (hs : walletPool.step c e = some c') {i : Nat} {call : WalletCall} {b : WalletReply}
    (hb : c'.Returned i call b) {u ref : Uuid} {t : TransactionType} {a : Int}
    (hasks : call.Asks u t a ref) : c'.state.rowsFor u t ref ≠ [] := by
  have hbefore : c.Returned i call b → c'.state.rowsFor u t ref ≠ [] := fun h =>
    rowsFor_step hs (hold i call b h u t a ref hasks)
  have hrec := (reach (hc.step e trivial hs)).1
  rcases walletPool.step_cases hs with ⟨j, call', s, rfl, hj, -, rfl⟩ |
    ⟨j, m, call', o, k, -, -, rfl, hj, -, -⟩ | ⟨j, call', o, k, rfl, hj, rfl⟩ |
    ⟨v, s, rfl, -, rfl⟩
  · rcases thread_update hb with ⟨-, h⟩ | ⟨-, h⟩
    · obtain ⟨rfl, hbody, -⟩ : call' = call ∧ call'.body = .ret b ∧ True := by simpa using h
      cases call' with
      | getBalance u' => exact hasks.elim
      | deposit u' dto => exact absurd (congrArg Prog.pending hbody) (Option.some_ne_none _)
      | debit u' n hn ref' d => exact absurd (congrArg Prog.pending hbody) (Option.some_ne_none _)
      | credit u' n hn ref' d => exact absurd (congrArg Prog.pending hbody) (Option.some_ne_none _)
    · exact hbefore h
  · obtain ⟨r, w', hx, rfl⟩ := walletPool.step_run hs hj
    rcases thread_update hb with ⟨-, h⟩ | ⟨-, h⟩
    · obtain ⟨rfl, hk, -⟩ : call' = call ∧ k r = .ret b ∧ True := by simpa using h
      have hgoes : GoesOn call' o k := (walletPool.each_thread each_goesOn hc hj).1
      rcases hgoes.1 r b hk u t a ref hasks with ⟨d, dto, heq⟩ | ⟨type, tx, heq, htype⟩
      · -- its transaction is on the trace
        cases heq
        obtain ⟨ch, s, -, rfl⟩ := hx.exec.ok_cases
        exact hrec _ List.mem_cons_self rfl u t ref ⟨a, d, rfl⟩
      · -- the row that its lookup found
        cases heq
        obtain ⟨ch, rfl⟩ := hx.ok_mode
        obtain ⟨ch', s, hs', rfl⟩ := hx.exec.ok_cases
        obtain ⟨hp, rfl⟩ := Prod.mk.inj (Option.some.inj hs')
        have hmem := pickOne_mem (Except.ok.inj hp)
        obtain ⟨htx, hm⟩ := List.mem_filter.mp hmem
        rcases htype with rfl | ⟨rfl, rfl⟩
        · exact rowsFor_ne_nil htx (by simpa using hm)
        · cases call' with
          | getBalance u' => exact hasks.elim
          | deposit u' dto =>
            obtain ⟨rfl, -, -, rfl⟩ := hasks
            exact hkey u dto ⟨k, hj⟩ ⟨tx, htx, by simpa using hm⟩
          | debit u' n hn ref' d => exact absurd hasks.2.1 (by simp)
          | credit u' n hn ref' d => exact absurd hasks.2.1 (by simp)
    · exact hbefore h
  · rcases thread_update hb with ⟨-, h⟩ | ⟨-, h⟩
    · exact absurd (congrArg Thread.crashed h) (by simp)
    · exact hbefore h
  · exact nomatch v

/-- A deposit that its lookup answered has returned, so it has a row if every such call does. -/
theorem keyedLookup_of_returned (hc : walletPool.Reachable (walletPool.init .empty) c)
    (hs : walletPool.step c e = some c') (h' : AppliedOnce c') : KeyedLookup c e := by
  cases e with
  | run i m =>
    cases m with
    | ok ch =>
      rintro u dto ⟨k, hk⟩ ⟨tx, htx, hm⟩
      obtain ⟨r, w', ⟨_, s, took, rfl, hans, rfl⟩, rfl⟩ := walletPool.step_run hs hk
      obtain ⟨hr, hst⟩ := Prod.mk.inj (Option.some.inj (hans.symm.trans (walletPool.answer_ok rfl)))
      obtain rfl : s = c.state := (Prod.mk.inj hst).1
      replace hr : r = .ok (pickOne ch.pick (c.state.walletTransactions.filter
        (·.Matches u dto.clientMutationId none))) := hr
      cases hp : pickOne ch.pick (c.state.walletTransactions.filter
          (·.Matches u dto.clientMutationId none)) with
      | none =>
        exact absurd hm (by simpa using List.filter_eq_nil_iff.mp (pickOne_eq_none hp) tx htx)
      | some found =>
        rw [hp] at hr
        have hgoes : GoesOn (.deposit u dto) (.query (.txFindOne u dto.clientMutationId none)) k :=
          (walletPool.each_thread each_goesOn hc hk).1
        obtain ⟨b, hb⟩ := hgoes.2 r ⟨u, dto.clientMutationId, none, found, hr ▸ rfl⟩
        have hret := congrArg (fun p => some (⟨.deposit u dto, p, false⟩ : Thread walletPool)) hb
        obtain ⟨row, hrow⟩ := h'.returned i (.deposit u dto) b
          ((Function.update_self ..).trans hret) u .DEPOSIT dto.amountCents dto.clientMutationId
          ⟨rfl, rfl, rfl, rfl⟩
        simp [hrow]
    | fail e => trivial
    | lost ch e => trivial
  | spawn i call => trivial
  | crash i => trivial
  | env v => trivial

/-- One step keeps each key applied once exactly when it satisfies both conditions. -/
theorem applied_once_step (hc : walletPool.Reachable (walletPool.init .empty) c)
    (h : AppliedOnce c) (hs : walletPool.step c e = some c') :
    AppliedOnce c' ↔ Isolated c e ∧ KeyedLookup c e := by
  have hc' : walletPool.Reachable (walletPool.init .empty) c' := hc.step e trivial hs
  refine ⟨fun h' => ⟨(one_row_step hc h.one hs).mp h'.one, keyedLookup_of_returned hc hs h'⟩, ?_⟩
  rintro ⟨hiso, hkey⟩
  have hone := (one_row_step hc h.one hs).mpr hiso
  have hbooks := books_reach hc'
  have hrow : ∀ i call r, c'.Returned i call r → ∀ u t a ref, call.Asks u t a ref →
      ∃ tx, c'.state.rowsFor u t ref = [tx] := by
    intro i call r hr u t a ref hasks
    have hne : c'.state.rowsFor u t ref ≠ [] := by
      refine returned_row hc hkey (fun i call r hr u t a ref hasks => ?_) hs hr hasks
      obtain ⟨tx, htx⟩ := h.returned i call r hr u t a ref hasks
      simp [htx]
    have hpos := List.length_pos_iff.mpr hne
    have hle := hone u t ref
    exact List.length_eq_one_iff.mp (by omega)
  refine ⟨hone, rows_asked hc', hbooks.moved, hbooks.ledger.balance_eq, hrow, ?_⟩
  intro i call r hr u t a ref hasks hsame
  obtain ⟨tx, htx⟩ := hrow i call r hr u t a ref hasks
  exact moved_once hc' htx hsame

end Steps

end Idempotency

/-- **Each key is applied once throughout a run, exactly when each transaction committed undisturbed
and each deposit's lookup was answered by a key of its own.** -/
theorem walletPool_applied_once_iff {es : List (Event walletPool)} {c : Config walletPool}
    (hr : walletPool.replay (walletPool.init .empty) es = some c) :
    (∀ es' c', es' <+: es → walletPool.replay (walletPool.init .empty) es' = some c' →
        AppliedOnce c') ↔
      walletPool.Meets (fun c e => Isolated c e ∧ KeyedLookup c e)
        (walletPool.init .empty) es := by
  refine walletPool.throughout_iff Idempotency.applied_once_step .init ?_ hr
  exact ⟨fun _ _ _ => Nat.zero_le 1, nofun, fun _ _ _ => rfl, fun _ => rfl,
    fun _ _ _ h => absurd h (by simp [Config.Returned, Machine.init]),
    fun _ _ _ h => absurd h (by simp [Config.Returned, Machine.init])⟩

/-- Two deposits of 500 cents with one mutation id: both look before either commits. -/
def doubleDeposit : List (Event walletPool) :=
  [.spawn 0 (.deposit 7 ⟨500, 1, by decide, by decide⟩),
   .spawn 1 (.deposit 7 ⟨500, 1, by decide, by decide⟩),
   .run 0 (.ok {}), .run 1 (.ok {}), .run 0 (.ok { fresh := 70 }), .run 1 (.ok { fresh := 71 })]

/-- Both deposits commit: two rows of one key, and the balance moved twice. -/
theorem walletPool_two_rows : ∃ c,
    walletPool.replay (walletPool.init .empty) doubleDeposit = some c ∧ ¬ AppliedOnce c ∧
    (c.state.rowsFor 7 .DEPOSIT 1).length = 2 ∧ c.state.balanceOf 7 = 1000 := by
  refine ⟨_, rfl, fun h => ?_, rfl, rfl⟩
  have hone : 2 ≤ 1 := h.one 7 .DEPOSIT 1
  omega

/-- The same two deposits, the second one after the first. -/
def repeatedDeposit : List (Event walletPool) :=
  [.spawn 0 (.deposit 7 ⟨500, 1, by decide, by decide⟩), .run 0 (.ok {}),
   .run 0 (.ok { fresh := 70 }), .spawn 1 (.deposit 7 ⟨500, 1, by decide, by decide⟩),
   .run 1 (.ok {})]

/-- Both return, and move the balance once. -/
theorem walletPool_applied_once_repeated : ∃ c,
    walletPool.replay (walletPool.init .empty) repeatedDeposit = some c ∧
    (c.result? 0).isSome ∧ (c.result? 1).isSome ∧
    movedBy 7 .DEPOSIT 1 c.state c.trace = 500 ∧ c.state.balanceOf 7 = 500 ∧
    ((∀ es' c', es' <+: repeatedDeposit →
        walletPool.replay (walletPool.init .empty) es' = some c' → AppliedOnce c') ↔
      walletPool.Meets (fun c e => Isolated c e ∧ KeyedLookup c e)
        (walletPool.init .empty) repeatedDeposit) :=
  ⟨_, rfl, rfl, rfl, rfl, rfl, walletPool_applied_once_iff rfl⟩

end BoltBet
