import Mathlib.Algebra.BigOperators.Group.List.Basic
import Mathlib.Algebra.Order.BigOperators.Group.List
import Mathlib.Data.List.Nodup
import Mathlib.Logic.Function.Basic
import Mathlib.Tactic.Linarith

/-!
# A bookmaker

What a betting service is for, without a word about how it is made: people deposit money, stake some
of it on markets that trade, and a market is settled once, which pays the accepted wagers it owes.

* `House.Step` says when an act is possible and what it does; `House.Run` is any number of acts.
* **`Run.sound`**: after any of them the books are `Sound`. Money is neither made nor lost, nobody
  owes any, a deposit or a wager is entered once for its key, and a closed market has one result.
-/

namespace Bookmaker

/-- How far a wager is. -/
inductive WagerPhase where
  | offered
  | accepted
  | closed
  deriving DecidableEq, Repr

/-- Whether a market takes wagers. -/
inductive Trading where
  | trading
  | suspended
  | closed
  deriving DecidableEq, Repr

/-- Money paid in. -/
structure Deposit (U K : Type) where
  user : U
  key : K
  amount : ℤ
  deriving DecidableEq

/-- Money staked, what is promised for it, and what was paid. -/
structure Wager (U K E B : Type) where
  id : B
  key : K
  user : U
  market : E
  stake : ℤ
  payout : ℤ
  phase : WagerPhase
  paid : ℤ
  deriving DecidableEq

/-- The books: users `U`, keys of requests `K`, markets `E` with their odds, wagers with ids `B`. -/
structure House (U K E B : Type) where
  balance : U → ℤ
  market : E → Option (ℤ × Trading)
  deposits : List (Deposit U K)
  wagers : List (Wager U K E B)

/-- What can happen. -/
inductive Act (U K E B : Type) where
  | nothing
  | deposit (d : Deposit U K)
  | opens (e : E) (odds : ℤ)
  | trades (e : E) (t : Trading)
  | offer (w : Wager U K E B)
  | accept (b : B)
  | settle (e : E) (won : Bool)

variable {U K E B : Type}

namespace Wager

/-- The market `e` has its result. -/
def settle [DecidableEq E] (e : E) (won : Bool) (w : Wager U K E B) : Wager U K E B :=
  if w.market = e ∧ w.phase = .accepted then
    { w with phase := .closed, paid := if won then w.payout else 0 }
  else w

/-- The wager `b` counts from now on. -/
def accept [DecidableEq B] (b : B) (w : Wager U K E B) : Wager U K E B :=
  if w.id = b ∧ w.phase = .offered then { w with phase := .accepted } else w

/-- What the user has of the wager by now. -/
def net (w : Wager U K E B) : ℤ := w.paid - w.stake

/-- What settling the market `e` adds to that. -/
def due [DecidableEq E] (e : E) (won : Bool) (w : Wager U K E B) : ℤ :=
  if w.market = e ∧ w.phase = .accepted ∧ won = true then w.payout else 0

end Wager

namespace House

/-- Nothing has happened. -/
def empty : House U K E B := ⟨fun _ => 0, fun _ => none, [], []⟩

section Sums

variable [DecidableEq U]

/-- What a user paid in. -/
def paidIn (s : House U K E B) (u : U) : ℤ :=
  ((s.deposits.filter (·.user = u)).map Deposit.amount).sum

/-- What a user has of these wagers by now. -/
def netOf (u : U) (ws : List (Wager U K E B)) : ℤ := ((ws.filter (·.user = u)).map Wager.net).sum

/-- What settling a market pays a user. -/
def dueTo [DecidableEq E] (e : E) (won : Bool) (u : U) (ws : List (Wager U K E B)) : ℤ :=
  ((ws.filter (·.user = u)).map (Wager.due e won)).sum

end Sums

section Rules

variable [DecidableEq U] [DecidableEq E] [DecidableEq B]

/-- **The rules of the house.** -/
inductive Step : House U K E B → Act U K E B → House U K E B → Prop
  | nothing (s : House U K E B) : Step s .nothing s
  | deposit {s : House U K E B} {d : Deposit U K} (hpos : 0 < d.amount)
      (hdeposits : ∀ d' ∈ s.deposits, d'.key ≠ d.key) (hwagers : ∀ w ∈ s.wagers, w.key ≠ d.key) :
      Step s (.deposit d) { s with
        balance := Function.update s.balance d.user (s.balance d.user + d.amount)
        deposits := s.deposits ++ [d] }
  | opens {s : House U K E B} {e : E} {odds : ℤ} (hnew : s.market e = none) (hodds : 0 < odds) :
      Step s (.opens e odds)
        { s with market := Function.update s.market e (some (odds, .trading)) }
  | trades {s : House U K E B} {e : E} {odds : ℤ} {t t' : Trading}
      (hmarket : s.market e = some (odds, t)) (hopen : t ≠ .closed) (hopen' : t' ≠ .closed) :
      Step s (.trades e t') { s with market := Function.update s.market e (some (odds, t')) }
  | offer {s : House U K E B} {w : Wager U K E B} {odds : ℤ}
      (hmarket : s.market w.market = some (odds, .trading)) (hstake : 0 < w.stake)
      (hfunds : w.stake ≤ s.balance w.user) (hpayout : w.payout = w.stake * odds / 100)
      (hphase : w.phase = .offered) (hpaid : w.paid = 0) (hid : ∀ w' ∈ s.wagers, w'.id ≠ w.id)
      (hdeposits : ∀ d ∈ s.deposits, d.key ≠ w.key) (hwagers : ∀ w' ∈ s.wagers, w'.key ≠ w.key) :
      Step s (.offer w) { s with
        balance := Function.update s.balance w.user (s.balance w.user - w.stake)
        wagers := s.wagers ++ [w] }
  | accept (s : House U K E B) (b : B) :
      Step s (.accept b) { s with wagers := s.wagers.map (Wager.accept b) }
  | settle {s : House U K E B} {e : E} {odds : ℤ} {t : Trading}
      (hmarket : s.market e = some (odds, t)) (hopen : t ≠ .closed) (won : Bool) :
      Step s (.settle e won) { s with
        balance := fun u => s.balance u + dueTo e won u s.wagers
        market := Function.update s.market e (some (odds, .closed))
        wagers := s.wagers.map (Wager.settle e won) }

/-- Acts from the empty books on, the last one first. -/
inductive Run : List (Act U K E B) → House U K E B → Prop
  | empty : Run [] empty
  | step {acts : List (Act U K E B)} {a : Act U K E B} {s s' : House U K E B} (h : Run acts s)
      (hs : Step s a s') : Run (a :: acts) s'

end Rules

/-- **What the books always show.** -/
structure Sound [DecidableEq U] (s : House U K E B) : Prop where
  /-- Money is neither made nor lost. -/
  balanced : ∀ u, s.balance u = s.paidIn u + netOf u s.wagers
  /-- Nobody owes any. -/
  covered : ∀ u, 0 ≤ s.balance u
  odds : ∀ e odds t, s.market e = some (odds, t) → 0 < odds
  amounts : ∀ w ∈ s.wagers, 0 < w.stake ∧ 0 ≤ w.payout
  unpaid : ∀ w ∈ s.wagers, w.phase ≠ .closed → w.paid = 0
  /-- Wagers are closed with their market. -/
  closed : ∀ w ∈ s.wagers, w.phase = .closed → ∃ odds, s.market w.market = some (odds, .closed)
  /-- A market has one result. -/
  result : ∃ won : E → Bool, ∀ w ∈ s.wagers, w.phase = .closed →
    w.paid = if won w.market then w.payout else 0
  /-- A request is entered once. -/
  keys : (s.deposits.map Deposit.key ++ s.wagers.map Wager.key).Nodup
  ids : (s.wagers.map Wager.id).Nodup

/-! ## Sums -/

section Sums

variable [DecidableEq U] {ws ws' : List (Wager U K E B)} {u : U}

theorem netOf_append : netOf u (ws ++ ws') = netOf u ws + netOf u ws' := by
  simp [netOf]

theorem netOf_cons {w : Wager U K E B} :
    netOf u (w :: ws) = (if w.user = u then w.net else 0) + netOf u ws := by
  by_cases h : w.user = u <;> simp [netOf, h]

/-- Accepting moves no money. -/
theorem netOf_accept [DecidableEq B] (b : B) : netOf u (ws.map (Wager.accept b)) = netOf u ws := by
  induction ws with
  | nil => rfl
  | cons w ws ih =>
    rw [List.map_cons, netOf_cons, netOf_cons, ih]
    unfold Wager.accept
    split <;> rfl

variable [DecidableEq E] {e : E} {won : Bool}

theorem dueTo_cons {w : Wager U K E B} :
    dueTo e won u (w :: ws) = (if w.user = u then w.due e won else 0) + dueTo e won u ws := by
  by_cases h : w.user = u <;> simp [dueTo, h]

/-- **Settling pays what is due.** -/
theorem netOf_settle (h : ∀ w ∈ ws, w.phase ≠ .closed → w.paid = 0) :
    netOf u (ws.map (Wager.settle e won)) = netOf u ws + dueTo e won u ws := by
  induction ws with
  | nil => rfl
  | cons w ws ih =>
    have ih := ih fun w' hw' => h w' (List.mem_cons_of_mem _ hw')
    have huser : (Wager.settle e won w).user = w.user := by
      unfold Wager.settle
      split <;> rfl
    have hnet : (Wager.settle e won w).net = w.net + w.due e won := by
      unfold Wager.settle Wager.due
      by_cases hm : w.market = e ∧ w.phase = .accepted
      · have hzero := h w List.mem_cons_self (by rw [hm.2]; decide)
        rw [if_pos hm]
        cases won with
        | true =>
          simp only [Wager.net, hm, hzero, and_self, if_true]
          omega
        | false => simp [Wager.net, hzero]
      · rw [if_neg hm, if_neg fun hc => hm ⟨hc.1, hc.2.1⟩, add_zero]
    rw [List.map_cons, netOf_cons, netOf_cons, dueTo_cons, ih, huser, hnet]
    by_cases hu : w.user = u
    · simp only [if_pos hu]
      omega
    · simp only [if_neg hu]
      omega

theorem dueTo_nonneg (h : ∀ w ∈ ws, 0 ≤ w.payout) : 0 ≤ dueTo e won u ws := by
  induction ws with
  | nil => exact le_refl _
  | cons w ws ih =>
    have ih := ih fun w' hw' => h w' (List.mem_cons_of_mem _ hw')
    have hdue : 0 ≤ w.due e won := by
      unfold Wager.due
      split
      · exact h w List.mem_cons_self
      · exact le_refl _
    rw [dueTo_cons]
    split <;> omega

end Sums

/-! ## The invariant, act by act -/

/-- A new key. -/
theorem keys_append {l l' : List K} {k : K} (h : (l ++ l').Nodup) (hl : k ∉ l) (hl' : k ∉ l') :
    (l ++ [k] ++ l').Nodup ∧ (l ++ (l' ++ [k])).Nodup := by
  have hboth : (l ++ l' ++ [k]).Nodup := by
    refine List.nodup_append.mpr ⟨h, List.nodup_singleton k, ?_⟩
    rintro x hx y hy rfl
    obtain rfl := List.mem_singleton.mp hy
    rcases List.mem_append.mp hx with hx | hx
    · exact hl hx
    · exact hl' hx
  refine ⟨?_, by rwa [← List.append_assoc]⟩
  have hperm : (l ++ [k] ++ l').Perm (l ++ l' ++ [k]) := by
    rw [List.append_assoc, List.append_assoc]
    exact List.perm_append_comm.append_left l
  exact hperm.nodup_iff.mpr hboth

theorem not_mem_map {α β : Type} {f : α → β} {l : List α} {b : β} (h : ∀ a ∈ l, f a ≠ b) :
    b ∉ l.map f := by
  intro hb
  obtain ⟨a, ha, hab⟩ := List.mem_map.mp hb
  exact h a ha hab

variable [DecidableEq U] {s s' : House U K E B}

theorem sound_empty : Sound (empty : House U K E B) where
  balanced _ := rfl
  covered _ := le_refl _
  odds := nofun
  amounts := nofun
  unpaid := nofun
  closed := nofun
  result := ⟨fun _ => true, nofun⟩
  keys := .nil
  ids := .nil

theorem Sound.deposit (hs : s.Sound) {d : Deposit U K} (hpos : 0 < d.amount)
    (hdeposits : ∀ d' ∈ s.deposits, d'.key ≠ d.key) (hwagers : ∀ w ∈ s.wagers, w.key ≠ d.key) :
    Sound { s with
      balance := Function.update s.balance d.user (s.balance d.user + d.amount)
      deposits := s.deposits ++ [d] } := by
  refine ⟨fun u => ?_, fun u => ?_, hs.odds, hs.amounts, hs.unpaid, hs.closed, hs.result, ?_,
    hs.ids⟩
  · have hpaid : ((s.deposits ++ [d]).filter (·.user = u)).map Deposit.amount =
        (s.deposits.filter (·.user = u)).map Deposit.amount ++
          if d.user = u then [d.amount] else [] := by
      by_cases hu : d.user = u <;> simp [hu]
    have hbal := hs.balanced u
    simp only [paidIn, hpaid, List.sum_append] at hbal ⊢
    by_cases hu : u = d.user
    · subst hu
      simp only [Function.update_self, if_true, List.sum_singleton]
      omega
    · simp only [Function.update_of_ne hu, if_neg (Ne.symm hu), List.sum_nil]
      omega
  · by_cases hu : u = d.user
    · subst hu
      have hcov := hs.covered d.user
      simp only [Function.update_self]
      omega
    · simpa [hu] using hs.covered u
  · have hkeys := (keys_append hs.keys (not_mem_map hdeposits) (not_mem_map hwagers)).1
    simpa using hkeys

/-- What becomes of closed wagers when a market that is not closed is rewritten. -/
theorem Sound.closed_update [DecidableEq E] (hs : s.Sound) {e : E} {x : Option (ℤ × Trading)}
    (he : ∀ odds, s.market e ≠ some (odds, .closed)) {w : Wager U K E B} (hw : w ∈ s.wagers)
    (hc : w.phase = .closed) :
    w.market ≠ e ∧ ∃ odds, Function.update s.market e x w.market = some (odds, .closed) := by
  obtain ⟨odds, hm⟩ := hs.closed w hw hc
  have hne : w.market ≠ e := fun heq => he odds (heq ▸ hm)
  exact ⟨hne, odds, by rwa [Function.update_of_ne hne]⟩

theorem Sound.odds_update [DecidableEq E] (hs : s.Sound) {e : E} {odds : ℤ} {t : Trading}
    (hodds : 0 < odds) (e' : E) (odds' : ℤ) (t' : Trading)
    (he : Function.update s.market e (some (odds, t)) e' = some (odds', t')) : 0 < odds' := by
  by_cases hee : e' = e
  · subst hee
    rw [Function.update_self] at he
    obtain ⟨rfl, -⟩ := Prod.mk.inj (Option.some.inj he)
    exact hodds
  · rw [Function.update_of_ne hee] at he
    exact hs.odds e' odds' t' he

/-- Opening, suspending and reopening a market. -/
theorem Sound.rewrite [DecidableEq E] (hs : s.Sound) {e : E} {odds : ℤ} {t : Trading}
    (he : ∀ odds, s.market e ≠ some (odds, .closed)) (hodds : 0 < odds) :
    Sound { s with market := Function.update s.market e (some (odds, t)) } :=
  ⟨hs.balanced, hs.covered, hs.odds_update hodds, hs.amounts, hs.unpaid,
    fun _ hw hc => (hs.closed_update he hw hc).2, hs.result, hs.keys, hs.ids⟩

theorem Sound.offer (hs : s.Sound) {w : Wager U K E B} {odds : ℤ}
    (hmarket : s.market w.market = some (odds, .trading)) (hstake : 0 < w.stake)
    (hfunds : w.stake ≤ s.balance w.user) (hpayout : w.payout = w.stake * odds / 100)
    (hphase : w.phase = .offered) (hpaid : w.paid = 0) (hid : ∀ w' ∈ s.wagers, w'.id ≠ w.id)
    (hdeposits : ∀ d ∈ s.deposits, d.key ≠ w.key) (hwagers : ∀ w' ∈ s.wagers, w'.key ≠ w.key) :
    Sound { s with
      balance := Function.update s.balance w.user (s.balance w.user - w.stake)
      wagers := s.wagers ++ [w] } := by
  have hodds := hs.odds _ _ _ hmarket
  have hopen : w.phase ≠ .closed := by
    rw [hphase]
    decide
  refine ⟨fun u => ?_, fun u => ?_, hs.odds, ?_, ?_, ?_, ?_, ?_, ?_⟩
  · have hbal := hs.balanced u
    have hone : netOf u [w] = if w.user = u then w.net else 0 := by
      rw [netOf_cons]
      exact add_zero _
    rw [netOf_append, hone]
    show Function.update s.balance w.user (s.balance w.user - w.stake) u = s.paidIn u + _
    by_cases hu : u = w.user
    · subst hu
      rw [Function.update_self, if_pos rfl, Wager.net, hpaid]
      omega
    · rw [Function.update_of_ne hu, if_neg (Ne.symm hu)]
      omega
  · by_cases hu : u = w.user
    · subst hu
      simp only [Function.update_self]
      omega
    · simpa [hu] using hs.covered u
  · intro w' hw'
    rcases List.mem_append.mp hw' with hw' | hw'
    · exact hs.amounts w' hw'
    · obtain rfl := List.mem_singleton.mp hw'
      refine ⟨hstake, ?_⟩
      rw [hpayout]
      exact Int.ediv_nonneg (mul_nonneg hstake.le hodds.le) (by decide)
  · intro w' hw' hne
    rcases List.mem_append.mp hw' with hw' | hw'
    · exact hs.unpaid w' hw' hne
    · obtain rfl := List.mem_singleton.mp hw'
      exact hpaid
  · intro w' hw' hc
    rcases List.mem_append.mp hw' with hw' | hw'
    · exact hs.closed w' hw' hc
    · obtain rfl := List.mem_singleton.mp hw'
      exact absurd hc hopen
  · obtain ⟨won, hwon⟩ := hs.result
    refine ⟨won, fun w' hw' hc => ?_⟩
    rcases List.mem_append.mp hw' with hw' | hw'
    · exact hwon w' hw' hc
    · obtain rfl := List.mem_singleton.mp hw'
      exact absurd hc hopen
  · have hkeys := (keys_append hs.keys (not_mem_map hdeposits) (not_mem_map hwagers)).2
    simpa using hkeys
  · have hids := (keys_append (l := []) hs.ids (by simp) (not_mem_map hid)).2
    simpa using hids

/-- What no act changes about a wager. -/
structure Follows (f : Wager U K E B → Wager U K E B) : Prop where
  id : ∀ w, (f w).id = w.id
  key : ∀ w, (f w).key = w.key
  market : ∀ w, (f w).market = w.market
  stake : ∀ w, (f w).stake = w.stake
  payout : ∀ w, (f w).payout = w.payout

omit [DecidableEq U] in
theorem follows_accept [DecidableEq B] (b : B) :
    Follows (Wager.accept b : Wager U K E B → Wager U K E B) := by
  constructor <;> intro w <;> unfold Wager.accept <;> split <;> rfl

omit [DecidableEq U] in
theorem follows_settle [DecidableEq E] (e : E) (won : Bool) :
    Follows (Wager.settle e won : Wager U K E B → Wager U K E B) := by
  constructor <;> intro w <;> unfold Wager.settle <;> split <;> rfl

section Follows

variable {f : Wager U K E B → Wager U K E B}

theorem Follows.keys (hf : Follows f) (hs : s.Sound) :
    (s.deposits.map Deposit.key ++ (s.wagers.map f).map Wager.key).Nodup := by
  have hmap : (s.wagers.map f).map Wager.key = s.wagers.map Wager.key := by
    rw [List.map_map]
    exact List.map_congr_left fun w _ => hf.key w
  rw [hmap]
  exact hs.keys

theorem Follows.ids (hf : Follows f) (hs : s.Sound) : ((s.wagers.map f).map Wager.id).Nodup := by
  have hmap : (s.wagers.map f).map Wager.id = s.wagers.map Wager.id := by
    rw [List.map_map]
    exact List.map_congr_left fun w _ => hf.id w
  rw [hmap]
  exact hs.ids

theorem Follows.amounts (hf : Follows f) (hs : s.Sound) :
    ∀ w ∈ s.wagers.map f, 0 < w.stake ∧ 0 ≤ w.payout := by
  intro w hw
  obtain ⟨w, hw₀, rfl⟩ := List.mem_map.mp hw
  rw [hf.stake, hf.payout]
  exact hs.amounts w hw₀

end Follows

theorem Sound.accept [DecidableEq B] (hs : s.Sound) (b : B) :
    Sound { s with wagers := s.wagers.map (Wager.accept b) } := by
  have hf := follows_accept (U := U) (K := K) (E := E) b
  have hpaid : ∀ w : Wager U K E B, (w.accept b).paid = w.paid := by
    intro w
    unfold Wager.accept
    split <;> rfl
  have hclosed : ∀ w : Wager U K E B, (w.accept b).phase = .closed ↔ w.phase = .closed := by
    intro w
    unfold Wager.accept
    split
    · rename_i hc
      simp [hc.2]
    · exact Iff.rfl
  obtain ⟨won, hwon⟩ := hs.result
  refine ⟨fun u => ?_, hs.covered, hs.odds, hf.amounts hs, ?_, ?_, ⟨won, ?_⟩, hf.keys hs,
    hf.ids hs⟩
  · rw [netOf_accept]
    exact hs.balanced u
  · intro w hw hne
    obtain ⟨w, hw₀, rfl⟩ := List.mem_map.mp hw
    rw [hpaid]
    exact hs.unpaid w hw₀ fun hc => hne ((hclosed w).mpr hc)
  · intro w hw hc
    obtain ⟨w, hw₀, rfl⟩ := List.mem_map.mp hw
    rw [hf.market]
    exact hs.closed w hw₀ ((hclosed w).mp hc)
  · intro w hw hc
    obtain ⟨w, hw₀, rfl⟩ := List.mem_map.mp hw
    rw [hpaid, hf.payout, hf.market]
    exact hwon w hw₀ ((hclosed w).mp hc)

/-- **A market is settled once**: no wager of it is closed yet, so all get the one result. -/
theorem Sound.settle [DecidableEq E] (hs : s.Sound) {e : E} {odds : ℤ} {t : Trading}
    (hmarket : s.market e = some (odds, t)) (hopen : t ≠ .closed) (won : Bool) :
    Sound { s with
      balance := fun u => s.balance u + dueTo e won u s.wagers
      market := Function.update s.market e (some (odds, .closed))
      wagers := s.wagers.map (Wager.settle e won) } := by
  have hf := follows_settle (U := U) (K := K) (B := B) e won
  have hnot : ∀ odds', s.market e ≠ some (odds', .closed) := by
    intro odds' he
    rw [hmarket] at he
    exact hopen (Prod.mk.inj (Option.some.inj he)).2
  -- a wager is settled now, or it is as it was
  have hcases : ∀ w : Wager U K E B, (w.market = e ∧ (w.settle e won).phase = .closed ∧
      (w.settle e won).paid = if won then w.payout else 0) ∨ w.settle e won = w := by
    intro w
    unfold Wager.settle
    split
    · rename_i hc
      exact .inl ⟨hc.1, rfl, rfl⟩
    · exact .inr rfl
  obtain ⟨result, hresult⟩ := hs.result
  refine ⟨fun u => ?_, fun u => ?_, hs.odds_update (hs.odds e odds t hmarket), hf.amounts hs, ?_,
    ?_, ⟨Function.update result e won, ?_⟩, hf.keys hs, hf.ids hs⟩
  · rw [netOf_settle hs.unpaid, ← add_assoc]
    exact congrArg (· + _) (hs.balanced u)
  · have hdue : 0 ≤ dueTo e won u s.wagers := dueTo_nonneg fun w hw => (hs.amounts w hw).2
    exact add_nonneg (hs.covered u) hdue
  · intro w hw hne
    obtain ⟨w, hw₀, rfl⟩ := List.mem_map.mp hw
    rcases hcases w with ⟨-, hc, -⟩ | hw'
    · exact absurd hc hne
    · rw [hw'] at hne ⊢
      exact hs.unpaid w hw₀ hne
  · intro w hw hc
    obtain ⟨w, hw₀, rfl⟩ := List.mem_map.mp hw
    rcases hcases w with ⟨he, -, -⟩ | hw'
    · refine ⟨odds, ?_⟩
      rw [hf.market, he]
      exact Function.update_self ..
    · rw [hw'] at hc ⊢
      exact (hs.closed_update hnot hw₀ hc).2
  · intro w hw hc
    obtain ⟨w, hw₀, rfl⟩ := List.mem_map.mp hw
    rw [hf.market, hf.payout]
    rcases hcases w with ⟨he, -, hp⟩ | hw'
    · rw [he, Function.update_self, hp]
    · rw [hw'] at hc ⊢
      rw [Function.update_of_ne (hs.closed_update (x := none) hnot hw₀ hc).1]
      exact hresult w hw₀ hc

variable [DecidableEq E] [DecidableEq B]

/-- **Every act keeps the books sound.** -/
theorem Step.sound {a : Act U K E B} (h : Step s a s') (hs : s.Sound) : s'.Sound := by
  cases h with
  | nothing => exact hs
  | deposit hpos hdeposits hwagers => exact hs.deposit hpos hdeposits hwagers
  | opens hnew hodds => exact hs.rewrite (fun odds => by simp [hnew]) hodds
  | @trades e odds t t' hmarket hopen _ =>
    refine hs.rewrite (fun odds' he => hopen ?_) (hs.odds e odds t hmarket)
    rw [hmarket] at he
    exact (Prod.mk.inj (Option.some.inj he)).2
  | offer hmarket hstake hfunds hpayout hphase hpaid hid hdeposits hwagers =>
    exact hs.offer hmarket hstake hfunds hpayout hphase hpaid hid hdeposits hwagers
  | accept b => exact hs.accept b
  | settle hmarket hopen won => exact hs.settle hmarket hopen won

/-- **The books are sound**, whatever happened. -/
theorem Run.sound {acts : List (Act U K E B)} (h : Run acts s) : s.Sound := by
  induction h with
  | empty => exact sound_empty
  | step _ hs ih => exact hs.sound ih

end House

end Bookmaker
