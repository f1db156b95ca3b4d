import BoltBet.Api.Refinement
import BoltBet.Async.Progress
import BoltBet.Wallet.Creation

/-!
# No call waits for good

The statements of `apiOverSql` wait for row locks: `SELECT … FOR UPDATE` and the writes for the
wallet row of their user, and the insert of a first wallet for an uncommitted one. A settlement pays
one user after the other, so a call takes many locks in its life, but it never waits for one while
it holds another.

* `heldBy`: the row that a thread's history leaves it with. `Allowed`: what it may run then.
* `Bound`: the locks of a connection are those.
* `RollsBack`: no `ROLLBACK` fails; a lost connection is closed by the database.
* **`api_comes_to_rest`**: from every configuration of such a run, whatever failed or crashed
  before, the calls under way can all be brought to their end, and nothing has to fail for it.
-/

namespace BoltBet

open Async

/-! ## Statements that may wait -/

namespace SqlState

open Creation (Opened effect_others close_unlocked)

/-- Nothing is in the way of a statement of connection `i`. -/
def Unobstructed (i : Nat) (s : SqlState) : SqlOp → Prop
  | .query (.walletCreate u) => s.locks u = none
  | .walletSelectForUpdate u => s.Free i u
  | .walletInsert u => s.Free i u
  | .walletUpdate u _ => s.Free i u
  | _ => True

/-- A statement of a transaction that was closed fails; it does not wait. -/
theorem inSession_isSome {α : Type} {s : SqlState} {i : Nat}
    {f : Session → Option (Except Err α × SqlState)} (h : ∀ x, (f x).isSome) :
    (s.inSession i f).isSome := by
  unfold inSession
  split
  · rfl
  · exact h _

theorem exec_isSome {i : Nat} {s : SqlState} {o : SqlOp} (h : s.Unobstructed i o)
    (ch : WalletChoice) : (exec i ch o s).isSome := by
  cases o with
  | query q =>
    have hw : ¬ s.Waits q := by
      cases q with
      | walletCreate u => exact fun hw => hw.2 h
      | txFindOne => exact not_false
      | walletReplicaFindOne => exact not_false
    simp only [exec, if_neg hw]
    rfl
  | startTransaction => rfl
  | walletSelectForUpdate u =>
    have hf : s.Free i u := h
    refine inSession_isSome fun x => ?_
    simp only [if_pos hf]
    split <;> rfl
  | walletInsert u =>
    have hf : s.Free i u := h
    refine inSession_isSome fun x => ?_
    simp only [if_pos hf]
    split <;> rfl
  | walletUpdate u w =>
    have hf : s.Free i u := h
    refine inSession_isSome fun x => ?_
    simp only [if_pos hf]
    repeat' split
    all_goals rfl
  | txInsert d =>
    refine inSession_isSome fun x => ?_
    split <;> rfl
  | commitTransaction => exact inSession_isSome fun x => rfl
  | rollbackTransaction => exact inSession_isSome fun x => rfl

/-- Connection `i` has the lock of at most this row, in an open transaction. -/
def Bound (i : Nat) (held : Option Uuid) (s : SqlState) : Prop :=
  ∀ u, s.locks u = some i → held = some u ∧ Opened i s

section Bound

variable {i j : Nat} {held held' : Option Uuid} {s s' : SqlState} {u : Uuid}

theorem Bound.other {o : SqlOp} (h : Bound i held s) (heff : Effect j s o s') (hij : i ≠ j) :
    Bound i held s' := by
  obtain ⟨hsession, hlocks⟩ := effect_others heff hij
  intro v hv
  obtain ⟨hheld, x, hx⟩ := h v (hlocks v hv)
  exact ⟨hheld, x, hsession.trans hx⟩

theorem Bound.close (h : Bound i held s) (j : Nat) : Bound i held (s.close j) := by
  by_cases hij : i = j
  · subst hij
    exact fun v hv => absurd hv (close_unlocked i s v)
  · exact h.other .rollback hij

/-- A statement on the row that may be held. -/
theorem Bound.lock (h : Bound i held s) (hheld : held = none ∨ held = some u) (hopen : Opened i s')
    (hlocks : ∀ v, s'.locks v = some i → v = u ∨ s.locks v = some i) : Bound i (some u) s' := by
  intro v hv
  rcases hlocks v hv with rfl | hv
  · exact ⟨rfl, hopen⟩
  · have hsome := (h v hv).1
    rcases hheld with rfl | rfl
    · exact absurd hsome (by simp)
    · exact ⟨hsome, hopen⟩

/-- It changed nothing. -/
theorem Bound.same (h : Bound i held s) (hheld : held = none ∨ held = some u) :
    Bound i (some u) s := by
  intro v hv
  exact (h.lock hheld (h v hv).2 fun v hv => .inr hv) v hv

/-- Without a transaction there are no locks. -/
theorem Bound.of_closed (h : Bound i held s) (hs : s.sessions i = none) : Bound i held' s := by
  intro v hv
  obtain ⟨-, x, hx⟩ := h v hv
  exact absurd (hs.symm.trans hx) (by simp)

end Bound

end SqlState

open SqlState

/-! ## The row of a history -/

/-- The row that a thread may hold after these statements. -/
def heldBy : List (Seen StatementSig) → Option Uuid
  | [] => none
  | ⟨.sql (.walletSelectForUpdate u), _⟩ :: _ => some u
  | ⟨.sql (.walletInsert u), _⟩ :: _ => some u
  | ⟨.sql (.walletUpdate u _), _⟩ :: _ => some u
  | ⟨.sql .commitTransaction, .ok _⟩ :: _ => none
  | ⟨.sql .rollbackTransaction, _⟩ :: _ => none
  | _ :: l => heldBy l

/-- What a thread may run then: statements on the row it holds, and on any when it holds none. -/
def Allowed (l : List (Seen StatementSig)) : StatementOp → Prop
  | .sql (.walletSelectForUpdate u) => heldBy l = none ∨ heldBy l = some u
  | .sql (.walletInsert u) => heldBy l = none ∨ heldBy l = some u
  | .sql (.walletUpdate u _) => heldBy l = none ∨ heldBy l = some u
  | .sql (.query _) => heldBy l = none
  | _ => True

/-- Whoever is done holds nothing. -/
def Released {α : Type} (l : List (Seen StatementSig)) (_ : Except Err α) : Prop := heldBy l = none

/-- No `ROLLBACK` fails. -/
def RollsBack (c : Config apiOverSql.machine) : Event apiOverSql.machine → Prop
  | .run i m => ∀ x ∈ c.waiting i, x.2 = .sql .rollbackTransaction → IsOk m
  | _ => True

/-- The calls under way go on, and nothing fails; what crashed loses its connection. -/
def Proceeds (c : Config apiOverSql.machine) : Event apiOverSql.machine → Prop
  | .run _ m => IsOk m
  | .env (.inr i) => ∃ t, c.threads i = some t ∧ t.crashed = true
  | _ => False

/-! ## The programs -/

section Along

variable {l : List (Seen StatementSig)}

/-- A statement of the database. -/
theorem along_sql {o : SqlOp} {Q : List (Seen StatementSig) → Except Err o.Res → Prop}
    (ho : Allowed l (.sql o)) (hQ : ∀ r, Q (⟨.sql o, r⟩ :: l) r) :
    (sqlStatement o).Along Allowed Q l :=
  Prog.along_perform (S := StatementSig) ho hQ

theorem along_lockedWallet (u : Uuid) (hl : heldBy l = none) :
    ((Statements.lockedWallet u).expand sqlStatement).Along Allowed
      (fun l' _ => heldBy l' = some u) l := by
  unfold Statements.lockedWallet
  rw [Prog.expand_bind, Statements.walletSelectForUpdate, Prog.expand_perform]
  refine (along_sql (o := .walletSelectForUpdate u) (Q := fun l' _ => heldBy l' = some u) (.inl hl)
    fun _ => rfl).bind
    (fun row l' h => ?_) fun _ _ h => h
  cases row with
  | some was => exact h
  | none =>
    show ((Statements.walletInsert u).expand sqlStatement).Along _ _ _
    rw [Statements.walletInsert, Prog.expand_perform]
    exact along_sql (o := .walletInsert u) (.inr h) fun _ => rfl

/-- The `try` block works on one row, and its commit gives it back. -/
theorem along_transaction (u : Uuid) (type : TransactionType) (a : Int) (ref : Option Uuid)
    (desc : String) (hl : heldBy l = none) :
    ((Statements.transaction u type a ref desc).expand sqlStatement).Along Allowed
      (fun l' r => ∀ x, r = .ok x → heldBy l' = none) l := by
  have herr : ∀ (e : Err) (l' : List (Seen StatementSig)) (x : TransactionResponseDto),
      (.error e : Except Err TransactionResponseDto) = .ok x → heldBy l' = none :=
    fun e l' x h => absurd h (by simp)
  unfold Statements.transaction
  rw [Prog.expand_bind]
  refine (along_lockedWallet u hl).bind (fun was l₁ h₁ => ?_) fun e l' _ => herr e l'
  rw [Statements.moveBalance_eq]
  cases WalletDb.newBalance type was.balanceCents a with
  | error e => exact herr e l₁
  | ok b =>
    simp only [Prog.ret_bind]
    rw [Prog.expand_bind, Statements.walletUpdate, Prog.expand_perform]
    refine (along_sql (o := .walletUpdate u _) (Q := fun l' _ => heldBy l' = some u) (.inr h₁)
      fun _ => rfl).bind (fun _ l₂ h₂ => ?_) fun e l' _ => herr e l'
    rw [Prog.expand_bind, Statements.txInsert, Prog.expand_perform]
    refine (along_sql (o := .txInsert _) (Q := fun l' _ => heldBy l' = some u) trivial
      fun _ => h₂).bind (fun _ l₃ h₃ => ?_) fun e l' _ => herr e l'
    rw [Prog.expand_bind, Statements.commitTransaction, Prog.expand_perform]
    refine (along_sql (o := .commitTransaction) (Q := fun l' r => ∀ x, r = .ok x → heldBy l' = none)
      trivial ?_).bind (fun _ l₄ h₄ => ?_) fun e l' _ => herr e l'
    · rintro r x rfl
      rfl
    · exact fun x _ => h₄ _ rfl

/-- **`applyTransaction` ends with nothing held.** -/
theorem along_applyTransaction (u : Uuid) (type : TransactionType) (a : Int) (ref : Option Uuid)
    (desc : String) (hl : heldBy l = none) :
    ((Statements.applyTransaction u type a ref desc).expand sqlStatement).Along Allowed Released
      l := by
  unfold Statements.applyTransaction
  rw [Prog.expand_bind, Statements.startTransaction, Prog.expand_perform]
  refine (along_sql (o := .startTransaction) (Q := fun l' _ => heldBy l' = none) trivial
    fun _ => hl).bind (fun _ l₁ h₁ => ?_) fun _ _ h => h
  rw [Prog.expand_tryCatch]
  refine (along_transaction u type a ref desc h₁).tryCatch (fun x l' h => h x rfl)
    fun e l' _ => ?_
  -- what was held is given back, whatever the rollback answers
  rw [Prog.expand_bind, Statements.rollbackTransaction, Prog.expand_perform]
  exact (along_sql (o := .rollbackTransaction) (Q := fun l' _ => heldBy l' = none) trivial
    fun _ => rfl).bind (fun _ _ h => h) fun _ _ h => h

/-- **Between two operations a call holds nothing.** -/
theorem along_statementsOf (o : ApiOp) (hl : heldBy l = none) :
    (statementsOf o).Along Allowed Released l := by
  have hstore : ∀ o : ApiOp, (Prog.perform (S := StatementSig) (.store o)).Along Allowed
      Released l := fun o => Prog.along_perform (S := StatementSig) trivial fun _ => hl
  cases o with
  | wallet o =>
    cases o with
    | query q =>
      show ((Statements.statements (.query q)).expand sqlStatement).Along _ _ _
      rw [Statements.statements, Prog.expand_perform]
      exact along_sql (o := .query q) hl fun _ => hl
    | applyTransaction u type a ref desc => exact along_applyTransaction u type a ref desc hl
  | _ => exact hstore _


end Along

theorem along_call (call : ApiCall) :
    (apiOverSql.machine.body call).Along Allowed Released [] :=
  Prog.Along.expand (fun o _ hl => along_statementsOf o hl) rfl

/-! ## The locks of a thread -/

/-- A connection has locked what its thread's history says. -/
def Locks (i : Nat) (l : List (Seen StatementSig)) (t : StatementStore) : Prop :=
  Bound i (heldBy l) t.sql

theorem heldBy_error {l : List (Seen StatementSig)} {o : SqlOp} {e : Err} {s : SqlState} {i : Nat}
    (h : Bound i (heldBy l) s) (ho : Allowed l (.sql o)) (hroll : o ≠ .rollbackTransaction) :
    Bound i (heldBy (⟨.sql o, .error e⟩ :: l)) s := by
  cases o with
  | query => exact h
  | startTransaction => exact h
  | walletSelectForUpdate u => exact h.same ho
  | walletInsert u => exact h.same ho
  | walletUpdate u w => exact h.same ho
  | txInsert => exact h
  | commitTransaction => exact h
  | rollbackTransaction => exact absurd rfl hroll

/-- A statement on a row: it changed nothing, or it locked the row. -/
theorem bound_row {held : Option Uuid} {u : Uuid} {o : SqlOp} {i : Nat} {s q : SqlState}
    (h : Bound i held s) (ho : held = none ∨ held = some u) (heff : Effect i s o q)
    (hrow : o = .walletSelectForUpdate u ∨ o = .walletInsert u ∨ ∃ w, o = .walletUpdate u w)
    (hopen : q = s ∨ Creation.Opened i s) : Bound i (some u) q := by
  have hlocked : ∀ {x : Session} {w : Wallet} {v v' : Uuid}, s.sessions i = some x →
      (s.writeWallet i x v' w).locks v = some i → v = v' ∨ s.locks v = some i := by
    intro x w v v' _ hv
    by_cases hvu : v = v'
    · exact .inl hvu
    · exact .inr ((Function.update_of_ne hvu _ _).symm.trans hv)
  rcases hopen with rfl | hopen
  · exact h.same ho
  cases heff with
  | none => exact h.same ho
  | lock v hf =>
    obtain rfl : v = u := by simpa using hrow
    refine h.lock ho hopen fun v' hv => ?_
    by_cases hvu : v' = v
    · exact .inl hvu
    · exact .inr ((Function.update_of_ne hvu _ _).symm.trans hv)
  | insert v x w hx hf =>
    obtain rfl : v = u := by simpa using hrow
    exact h.lock ho ⟨_, Function.update_self ..⟩ fun v' hv => hlocked hx hv
  | update v x w hx hf =>
    obtain rfl : v = u := by simpa using hrow
    exact h.lock ho ⟨_, Function.update_self ..⟩ fun v' hv => hlocked hx hv
  | create => simp at hrow
  | start => simp at hrow
  | txInsert => simp at hrow
  | commit => simp at hrow
  | rollback => simp at hrow

/-- **A statement that ran**, whatever of its answer arrived. -/
theorem bound_exec {l : List (Seen StatementSig)} {o : SqlOp} {i : Nat} {ch : WalletChoice}
    {r₀ r : Except Err o.Res} {s q : SqlState} (h : Bound i (heldBy l) s)
    (ho : Allowed l (.sql o)) (hx : SqlState.exec i ch o s = some (r₀, q)) :
    Bound i (heldBy (⟨.sql o, r⟩ :: l)) q := by
  have heff := exec_effect hx
  have hsession : ∀ {α : Type} {f : Session → Option (Except Err α × SqlState)}
      {y : Except Err α × SqlState}, s.inSession i f = some y → y.2 = s ∨ Creation.Opened i s := by
    intro α f y hy
    rcases inSession_some hy with rfl | ⟨x, hx, -⟩
    · exact .inl rfl
    · exact .inr ⟨x, hx⟩
  cases o with
  | query =>
    cases heff with
    | none => exact h
    | create => exact h
  | startTransaction =>
    cases heff with
    | none => exact h
    | start => exact fun v hv => ⟨(h v hv).1, _, Function.update_self ..⟩
  | walletSelectForUpdate u => exact bound_row h ho heff (.inl rfl) (hsession hx)
  | walletInsert u => exact bound_row h ho heff (.inr (.inl rfl)) (hsession hx)
  | walletUpdate u w => exact bound_row h ho heff (.inr (.inr ⟨w, rfl⟩)) (hsession hx)
  | txInsert d =>
    cases heff with
    | none => exact h
    | txInsert => exact fun v hv => ⟨(h v hv).1, _, Function.update_self ..⟩
  | commitTransaction =>
    cases hs : s.sessions i with
    | none =>
      simp only [SqlState.exec, inSession, hs] at hx
      exact (Prod.mk.inj (Option.some.inj hx)).2 ▸ h.of_closed hs
    | some x =>
      simp only [SqlState.exec, inSession, hs] at hx
      obtain ⟨-, rfl⟩ := Prod.mk.inj (Option.some.inj hx)
      exact fun v hv => absurd hv (Creation.close_unlocked i (s.publish x) v)
  | rollbackTransaction =>
    cases hs : s.sessions i with
    | none =>
      simp only [SqlState.exec, inSession, hs] at hx
      exact (Prod.mk.inj (Option.some.inj hx)).2 ▸ h.of_closed hs
    | some x =>
      simp only [SqlState.exec, inSession, hs] at hx
      obtain ⟨-, rfl⟩ := Prod.mk.inj (Option.some.inj hx)
      exact fun v hv => absurd hv (Creation.close_unlocked i s v)

/-- What a service operation leaves of the database. -/
theorem store_sql {i : Nat} {call : ApiCall} {o : ApiOp} {w w' : World apiOverSql.machine}
    {r : Except Err o.Res} (h : apiOverSql.machine.Exec i call (.store o) w r w') :
    w'.state.sessions = w.state.sessions ∧ w'.state.locks = w.state.locks := by
  rcases h.cases with ⟨ch, r₀, t, ht, -, rfl⟩ | ⟨e, -, rfl⟩
  · obtain ⟨-, rfl⟩ := Prod.mk.inj (Option.some.inj ht)
    exact ⟨rfl, rfl⟩
  · exact ⟨rfl, rfl⟩

theorem bound_congr {held : Option Uuid} {i : Nat} {t t' : StatementStore}
    (hs : t'.sessions = t.sessions) (hl : t'.locks = t.locks) (h : Bound i held t.sql) :
    Bound i held t'.sql := by
  intro v hv
  obtain ⟨hheld, x, hx⟩ := h v ((congrFun hl v).symm.trans hv)
  exact ⟨hheld, x, (congrFun hs i).trans hx⟩

/-- A statement that does not fail ran. -/
theorem ran_of_isOk {i : Nat} {call : ApiCall} {o : SqlOp} {m : Mode ApiChoice Err}
    {w w' : World apiOverSql.machine} {r : Except Err o.Res} (hm : IsOk m)
    (h : apiOverSql.machine.ExecIn (· = m) i call (.sql o) w r w') :
    ∃ ch q r₀, SqlState.exec i ch o w.state.sql = some (r₀, q) ∧ w'.state.sql = q := by
  obtain ⟨ch, rfl⟩ := hm
  obtain ⟨_, s, b, rfl, hans, rfl⟩ := h
  obtain ⟨⟨r₀, t⟩, hx, he⟩ := Option.map_eq_some_iff.mp hans
  obtain ⟨⟨r₁, q⟩, hq, hx⟩ := Option.map_eq_some_iff.mp hx
  obtain ⟨rfl, rfl⟩ := Prod.mk.inj hx
  obtain ⟨-, rfl, -⟩ : r₁ = r ∧ w.state.setSql q = s ∧ r₁.toBool = b := by simpa using he
  exact ⟨_, q, r₁, hq, rfl⟩

/-- **No connection locks more than its thread knows.** -/
theorem tracks_locks : apiOverSql.machine.Tracks RollsBack Allowed Locks where
  start hst h := by
    obtain ⟨s, hs, rfl⟩ := Option.map_eq_some_iff.mp hst
    exact bound_congr rfl rfl h
  env {i l v t t'} hv h := by
    match v with
    | .inl v =>
      obtain ⟨s, hs, rfl⟩ := Option.map_eq_some_iff.mp hv
      exact bound_congr rfl rfl h
    | .inr j =>
      obtain rfl := Option.some.inj hv
      exact Bound.close h j
  own {c i m call o r w' l} hok hw hx ho h := by
    cases o with
    | store o =>
      obtain ⟨hs, hl⟩ := store_sql hx.exec
      exact bound_congr hs hl h
    | sql o =>
      by_cases hroll : o = .rollbackTransaction
      · obtain ⟨ch, q, r₀, hq, hw'⟩ := ran_of_isOk (hok (call, .sql o) hw.waiting (hroll ▸ rfl)) hx
        unfold Locks
        rw [hw']
        exact bound_exec h ho hq
      · rcases exec_sql hx.exec with ⟨ch, q, r₀, hq, hw', -⟩ | ⟨⟨e, rfl⟩, hw'⟩
        · have hsql : w'.state.sql = q := by
            rw [hw']
            rfl
          unfold Locks
          rw [hsql]
          exact bound_exec h ho hq
        · rw [hw']
          exact heldBy_error h ho hroll
  other {i j call o w r w' l} hij hx h := by
    cases o with
    | store o =>
      obtain ⟨hs, hl⟩ := store_sql hx
      exact bound_congr hs hl h
    | sql o =>
      rcases exec_sql hx with ⟨ch, q, r₀, hq, hw', -⟩ | ⟨-, hw'⟩
      · have hsql : w'.state.sql = q := by
          rw [hw']
          rfl
        unfold Locks
        rw [hsql]
        exact Bound.other h (exec_effect hq) hij
      · rw [hw']
        exact h

/-! ## Nobody waits for good -/

/-- What a thread waits for, if for anything: one row, held by another connection. -/
theorem obstructed {l : List (Seen StatementSig)} {i : Nat} {t : StatementStore} {o : SqlOp}
    (h : Locks i l t) (ho : Allowed l (.sql o)) : t.sql.Unobstructed i o ∨
      ∃ u j, i ≠ j ∧ t.locks u = some j ∧
        ∀ s : SqlState, s.locks u = none → s.Unobstructed i o := by
  have hfree : ∀ u, t.sql.Free i u ∨ ∃ j, i ≠ j ∧ t.locks u = some j := by
    intro u
    rcases hu : t.locks u with - | j
    · exact .inl (.inl hu)
    · by_cases hij : i = j
      · exact .inl (.inr (hij ▸ hu))
      · exact .inr ⟨j, hij, rfl⟩
  have hrow : ∀ u, t.sql.Free i u ∨
      ∃ v j, i ≠ j ∧ t.locks v = some j ∧ ∀ s : SqlState, s.locks v = none → s.Free i u := by
    intro u
    rcases hfree u with h | ⟨j, hij, hj⟩
    · exact .inl h
    · exact .inr ⟨u, j, hij, hj, fun _ => .inl⟩
  cases o with
  | query q =>
    cases q with
    | walletCreate u =>
      rcases hu : t.locks u with - | j
      · exact .inl hu
      · refine .inr ⟨u, j, ?_, hu, fun s hs => hs⟩
        rintro rfl
        exact absurd (ho.symm.trans (h u hu).1) (by simp)
    | txFindOne => exact .inl trivial
    | walletReplicaFindOne => exact .inl trivial
  | walletSelectForUpdate u => exact hrow u
  | walletInsert u => exact hrow u
  | walletUpdate u w => exact hrow u
  | startTransaction => exact .inl trivial
  | txInsert => exact .inl trivial
  | commitTransaction => exact .inl trivial
  | rollbackTransaction => exact .inl trivial

/-- **Whoever holds a row waits for nobody.** -/
theorem unobstructed_of_held {l : List (Seen StatementSig)} {i : Nat} {s : SqlState} {o : SqlOp}
    {u : Uuid} (hl : heldBy l = some u) (hu : s.locks u = some i) (ho : Allowed l (.sql o)) :
    s.Unobstructed i o := by
  have hsame : ∀ {v : Uuid}, heldBy l = none ∨ heldBy l = some v → s.Free i v := by
    rintro v (h | h)
    · exact absurd (hl.symm.trans h) (by simp)
    · obtain rfl := Option.some.inj (hl.symm.trans h)
      exact .inr hu
  cases o with
  | query q => exact absurd (hl.symm.trans ho) (by simp)
  | walletSelectForUpdate v => exact hsame ho
  | walletInsert v => exact hsame ho
  | walletUpdate v w => exact hsame ho
  | startTransaction => trivial
  | txInsert => trivial
  | commitTransaction => trivial
  | rollbackTransaction => trivial

section Rest

variable {c : Config apiOverSql.machine}

/-- The calls and their locks. -/
abbrev Orderly (c : Config apiOverSql.machine) : Prop := c.Knows Allowed Released Locks

/-- A call goes on where nothing is in its way. -/
theorem advance (hc : Orderly c) {i : Nat} {call : ApiCall} {o : StatementOp}
    (hw : c.Waits i call o) (ho : ∀ o', o = .sql o' → c.state.sql.Unobstructed i o') :
    ∃ c', apiOverSql.machine.Reach Proceeds c c' ∧ Orderly c' ∧ c.Advances c' := by
  obtain ⟨k, hk⟩ := hw
  obtain ⟨⟨r, t⟩, hx⟩ : ∃ x, apiOverSql.machine.exec i {} o c.state = some x := by
    cases o with
    | store o => exact ⟨_, rfl⟩
    | sql o =>
      have hsome := exec_isSome (ho o rfl) ({} : ApiChoice).toWalletChoice
      obtain ⟨x, hx⟩ := Option.isSome_iff_exists.mp hsome
      exact ⟨_, congrArg (Option.map _) hx⟩
  have hs : apiOverSql.machine.step c (.run i (.ok {})) =
      some ⟨⟨t, ⟨i, call, o, r.toBool, c.state⟩ :: c.trace⟩,
        Function.update c.threads i (some ⟨call, k r, false⟩)⟩ := by
    have hans : apiOverSql.machine.answer i (.ok {}) o c.state = some (r, t, r.toBool) :=
      congrArg (Option.map _) hx
    simp only [Machine.step, hk]
    exact congrArg (Option.map _) hans
  have hgoes : Proceeds c (.run i (.ok {})) := ⟨_, rfl⟩
  have hok : RollsBack c (.run i (.ok {})) := fun _ _ _ => ⟨_, rfl⟩
  exact ⟨_, .step _ .init hgoes hs, tracks_locks.step along_call hc hok hs, i, call, o, k, r, hk,
    rfl⟩

/-- **Who holds a row waits for no other.** -/
theorem orderly_unobstructed (hc : Orderly c) {i : Nat} {call : ApiCall} {o : SqlOp} {u : Uuid}
    (hw : c.Waits i call (.sql o)) (hu : c.state.sql.locks u = some i) :
    c.state.sql.Unobstructed i o := by
  obtain ⟨k, hk⟩ := hw
  obtain ⟨l, hl, hlocks⟩ := hc.thread i _ hk
  exact unobstructed_of_held (hlocks u hu).1 hu hl.1

/-- **Wherever a call is under way, some call goes on.** -/
theorem orderly_advances (hc : Orderly c) {i : Nat} {call : ApiCall} {o : StatementOp}
    (hw : c.Waits i call o) :
    ∃ c', apiOverSql.machine.Reach Proceeds c c' ∧ Orderly c' ∧ c.Advances c' := by
  cases o with
  | store o => exact advance hc hw fun o' h => absurd h (by simp)
  | sql o =>
    obtain ⟨k, hk⟩ := hw
    obtain ⟨l, hl, hlocks⟩ := hc.thread i _ hk
    rcases obstructed hlocks hl.1 with hfree | ⟨u, j, hij, hu, hfree⟩
    · exact advance hc ⟨k, hk⟩ fun o' h => StatementOp.sql.inj h ▸ hfree
    · rcases hj : c.threads j with - | ⟨callj, p, crashed⟩
      · exact absurd (hc.idle j hj u hu).1 (by simp [heldBy])
      obtain ⟨lj, hlj, hlocksj⟩ := hc.thread j _ hj
      have hheld := (hlocksj u hu).1
      cases crashed with
      | true =>
        -- its process is gone: the database closes its connection
        have hs : apiOverSql.machine.step c (.env (.inr j)) =
            some ⟨⟨c.state.disconnect j, c.trace⟩, c.threads⟩ := rfl
        have hok : RollsBack c (.env (.inr j)) := trivial
        have hgone : Proceeds c (.env (.inr j)) := ⟨_, hj, rfl⟩
        have hc₁ : Orderly ⟨⟨c.state.disconnect j, c.trace⟩, c.threads⟩ :=
          tracks_locks.step along_call hc hok hs
        have hnone : (c.state.disconnect j).sql.locks u = none := by
          show (if c.state.locks u = some j then none else c.state.locks u) = none
          rw [if_pos hu]
        obtain ⟨c', hreach, hc', hadv⟩ := advance hc₁ (i := i) ⟨k, hk⟩
          fun o' h => StatementOp.sql.inj h ▸ hfree _ hnone
        exact ⟨c', (Machine.Reach.step _ .init hgone hs).trans hreach, hc', hadv⟩
      | false =>
        -- it holds the row, so it is inside its transaction
        cases p with
        | ret a => exact absurd (hheld.symm.trans hlj) (by simp)
        | throw e => exact absurd (hheld.symm.trans hlj) (by simp)
        | await oj kj =>
          refine advance hc ⟨kj, hj⟩ fun o' h => ?_
          subst h
          exact orderly_unobstructed hc ⟨kj, hj⟩ hu

end Rest

/-- **The API never deadlocks.** Whatever failed, crashed or was lost on the way to `c`: a call that
holds a wallet row does not have to wait for another one, and the calls under way can all be brought
to their end from there, and nothing has to fail for it: they go on, and the database closes the
connections of crashed processes. -/
theorem api_comes_to_rest {s : Store} {c : Config apiOverSql.machine}
    (h : apiOverSql.machine.Reach RollsBack (apiOverSql.machine.init (.ofStore s)) c) :
    (∀ i call o u, c.Waits i call (.sql o) → c.state.sql.locks u = some i →
      c.state.sql.Unobstructed i o) ∧
    ∃ c', apiOverSql.machine.Reach Proceeds c c' ∧ c'.Quiet := by
  have h₀ : Orderly (apiOverSql.machine.init (.ofStore s)) :=
    ⟨fun i _ u hu => absurd hu (by simp [Machine.init, StatementStore.sql, StatementStore.ofStore]),
      fun i t ht => absurd ht (by simp [Machine.init])⟩
  obtain ⟨ids, hids⟩ := Config.exists_ids (h.mono fun _ _ _ => trivial)
  have hc : Orderly c := tracks_locks.reach along_call h₀ h
  obtain ⟨c', hreach, -, hquiet⟩ := Machine.comes_to_rest (P := Orderly)
    (fun c hc i call o hw => orderly_advances hc hw) hids hc
  exact ⟨fun i call o u hw hu => orderly_unobstructed hc hw hu, c', hreach, hquiet⟩

/-- Two deposits of user 7. The process of the first crashes while it holds the row. -/
def behindCrash : List (Event apiOverSql.machine) :=
  .spawn 0 (.deposit 7 tenDollars) :: proceedSql 0 4 ++
    .crash 0 :: .spawn 1 (.deposit 7 tenDollars) :: proceedSql 1 3

/-- The second deposit waits for the row, and it will get it. -/
theorem api_comes_to_rest_behind : ∃ c,
    apiOverSql.machine.replay (apiOverSql.machine.init (.ofStore .empty)) behindCrash = some c ∧
    (apiOverSql.machine.step c (.run 1 (.ok {}))).isNone ∧ (c.waiting 1).isSome ∧
    (∀ i call o u, c.Waits i call (.sql o) → c.state.sql.locks u = some i →
      c.state.sql.Unobstructed i o) ∧
    ∃ c', apiOverSql.machine.Reach Proceeds c c' ∧ c'.Quiet := by
  obtain ⟨c, hc, hstuck, hwaits⟩ : ∃ c, apiOverSql.machine.replay
      (apiOverSql.machine.init (.ofStore .empty)) behindCrash = some c ∧
      (apiOverSql.machine.step c (.run 1 (.ok {}))).isNone ∧ (c.waiting 1).isSome :=
    ⟨_, rfl, rfl, rfl⟩
  have hproceed : ∀ i n, ∀ e ∈ proceedSql i n, ∀ c, RollsBack c e := by
    intro i n e he c
    obtain rfl := List.eq_of_mem_replicate he
    exact fun _ _ _ => ⟨_, rfl⟩
  have hok : ∀ e ∈ behindCrash, ∀ c, RollsBack c e := by
    refine List.forall_mem_append.mpr
      ⟨List.forall_mem_cons.mpr ⟨fun _ => trivial, hproceed 0 4⟩, ?_⟩
    exact List.forall_mem_cons.mpr ⟨fun _ => trivial,
      List.forall_mem_cons.mpr ⟨fun _ => trivial, hproceed 1 3⟩⟩
  have hreach := Machine.Reach.of_meets .init hc (Machine.meets_of_forall hok _)
  exact ⟨c, hc, hstuck, hwaits, api_comes_to_rest hreach⟩

end BoltBet
