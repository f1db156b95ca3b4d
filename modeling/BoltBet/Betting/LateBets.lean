import BoltBet.Api.Rules

/-!
# Late bets

`placeBet` reads the market once (`assertMarketOpen`), then waits for the wallet, then inserts
the bet: the insert carries no condition on the market, so a market that is suspended or settled
in between still gets the bet (`api_late_bet`).

* `Late.Known`: when a call inserts its bet, the status of the market is the one saved last since
  the call read it, `OPEN` when none was.
* `api_inserts_open_iff`: so, in every run, bets are inserted into open markets only exactly when
  no insert comes after a save of another status that is younger than the call's own read.
-/

namespace BoltBet

open Async

/-- The status that an operation saved for a market. -/
def savedStatus? (id : Uuid) (x : Entry api) : Option MarketStatus :=
  match x.op with
  | .marketSave m => if x.took = true ∧ m.id = id then some m.status else none
  | _ => none

/-- The status of a market that was saved last. -/
def lastSaved (id : Uuid) (l : List (Entry api)) : Option MarketStatus :=
  l.findSome? (savedStatus? id)

/-- The operations since thread `i` read a market. -/
def sinceRead (i : Nat) (id : Uuid) (l : List (Entry api)) : List (Entry api) :=
  l.takeWhile fun x => ¬ (x.tid = i ∧ x.op = .marketFindOne id)

/-- **Bets are inserted into open markets**: each on a state in which its market is open, and
none after its market was closed and before it was opened again. -/
structure InsertsOpen (c : Config api) : Prop where
  whenOpen : ∀ x ∈ c.trace, x.took = true → ∀ d, x.op = .betSave d →
    x.before.marketStatus d.marketId = some .OPEN
  reopened : ∀ l x l', c.trace = l ++ x :: l' → x.took = true → ∀ d, x.op = .betSave d →
    ∀ st ∈ lastSaved d.marketId l', st = .OPEN

/-- **The condition**: an insert that takes effect finds that no other status than `OPEN` was
saved last since its call read the market. -/
def InTime (c : Config api) (e : Event api) : Prop :=
  ∀ x, api.Executes c e x → x.took = true → ∀ d, x.op = .betSave d →
    ∀ st ∈ lastSaved d.marketId (sinceRead x.tid d.marketId c.trace), st = .OPEN

/-- The market that a call suspends or settles. -/
def ApiCall.closes? : ApiCall → Option Uuid
  | .suspend id => some id
  | .settle id _ => some id
  | _ => none

/-- Thread `i` saved another status than `OPEN` for the market. -/
def ClosedBy (l : List (Entry api)) (i : Nat) (id : Uuid) : Prop :=
  ∃ x ∈ l, x.tid = i ∧ ∃ st, savedStatus? id x = some st ∧ st ≠ .OPEN

theorem lastSaved_cons (id : Uuid) (x : Entry api) (l : List (Entry api)) :
    lastSaved id (x :: l) = (savedStatus? id x).or (lastSaved id l) := by
  unfold lastSaved
  rw [List.findSome?_cons]
  cases savedStatus? id x <;> rfl

theorem savedStatus?_eq_some {id : Uuid} {x : Entry api} {st : MarketStatus}
    (h : savedStatus? id x = some st) : x.took = true ∧ x.op.SavesMarket id (· = st) := by
  unfold savedStatus? at h
  split at h
  · rename_i m ho
    split at h
    · rename_i hm
      exact ⟨hm.1, m, ho, hm.2, Option.some.inj h⟩
    · exact absurd h (by simp)
  · exact absurd h (by simp)

theorem savedStatus?_save {id : Uuid} {x : Entry api} {m : Market} (ht : x.took = true)
    (ho : x.op = .marketSave m) (hm : m.id = id) : savedStatus? id x = some m.status := by
  simp [savedStatus?, ho, ht, hm]

/-- The status of a market after an operation is the one it saved, or the one before. -/
theorem marketStatus_exec {i : Nat} {call : ApiCall} {o : ApiOp} {w w' : World api}
    {r : Except Err o.Res} {x : Entry api} {id : Uuid} {st : MarketStatus}
    (hx : api.Exec i call o w r w') (htr : w'.trace = x :: w.trace)
    (hst : w.state.marketStatus id = some st) :
    w'.state.marketStatus id = some ((savedStatus? id x).getD st) := by
  obtain ⟨took, htr'⟩ := hx.entry
  obtain rfl := (List.cons.inj (htr'.symm.trans htr)).1
  cases hs : savedStatus? id ⟨i, call, o, took, w.state⟩ with
  | some st' =>
    obtain ⟨ht, ho⟩ := savedStatus?_eq_some hs
    obtain ⟨st₁, h, rfl⟩ := api_saved hx htr ht ho
    exact h
  | none =>
    rcases api_status_cases hx htr id with h | ⟨d, -, hn, -⟩ | ⟨m, ht, ho, hm, -⟩
    · exact h.trans hst
    · exact absurd (hn.symm.trans hst) (by simp)
    · exact absurd (hs.symm.trans (savedStatus?_save ht ho hm)) (by simp)

namespace Late

/-- The status of a market is the one that was saved since thread `i` read it open. -/
def ReadOpen (i : Nat) (id : Uuid) (w : World api) : Prop :=
  w.state.marketStatus id = some ((lastSaved id (sinceRead i id w.trace)).getD .OPEN)

/-- What a `placeBet` call knows of its market, from its read to its insert. -/
def Known (i : Nat) (call : ApiCall) (o : ApiOp) (w : World api) : Prop :=
  (∀ d, o = .betSave d → ReadOpen i d.marketId w) ∧
  ∀ q, o = .wallet q → ∀ u role dto, call = .placeBet u role dto → ReadOpen i dto.marketId w

/-- What holds in every state. -/
structure Inv (w : World api) : Prop where
  marketIds : w.state.MarketIds
  saved : ∀ id st, lastSaved id w.trace = some st → w.state.marketStatus id = some st

variable {i j : Nat} {call : ApiCall} {o : ApiOp} {w w' : World api} {r : Except Err o.Res}
  {id : Uuid}

/-- Only a read of the market by the thread itself starts anew. -/
theorem readOpen_exec (hx : api.Exec i call o w r w') (hj : j = i → o ≠ .marketFindOne id)
    (hr : ReadOpen j id w) : ReadOpen j id w' := by
  obtain ⟨took, htr⟩ := hx.entry
  unfold ReadOpen sinceRead at *
  rw [marketStatus_exec hx htr hr, htr, List.takeWhile_cons_of_pos, lastSaved_cons]
  · cases savedStatus? id ⟨i, call, o, took, w.state⟩ <;> rfl
  · simp only [decide_eq_true_eq, not_and]
    exact fun h => hj h.symm

theorem inv_exec (hx : api.Exec i call o w r w') (hinv : Inv w) : Inv w' := by
  obtain ⟨ch, he⟩ := api_exec_effect hx
  obtain ⟨took, htr⟩ := hx.entry
  refine ⟨hinv.marketIds.effect he, fun id st h => ?_⟩
  rw [htr, lastSaved_cons] at h
  cases hs : savedStatus? id ⟨i, call, o, took, w.state⟩ with
  | some st' =>
    obtain ⟨ht, ho⟩ := savedStatus?_eq_some hs
    obtain ⟨st₁, hst, rfl⟩ := api_saved hx htr ht ho
    rw [hs] at h
    exact hst.trans h
  | none =>
    rw [hs] at h
    have := marketStatus_exec hx htr (hinv.saved id st h)
    rwa [hs] at this

theorem same_tables {s s' : Store} {l : List (Entry api)} (h : s.SameTables s')
    (hinv : Inv ⟨s, l⟩) : Inv ⟨s', l⟩ :=
  ⟨h.marketIds hinv.marketIds, fun id st hl => (h.marketStatus id).trans (hinv.saved id st hl)⟩

/-- Every `placeBet` call knows of its market. -/
def knowledge : Knowledge api :=
  apiKnowledge Inv (fun w w' => w.trace <:+ w'.trace) Known (fun _ _ _ _ _ _ => True)
    (fun _ => List.suffix_rfl) (fun h h' => h.trans h')
    (fun {i call o w r w'} hinv _ _ hx => by
      obtain ⟨took, htr⟩ := hx.entry
      refine ⟨inv_exec hx hinv, htr ▸ List.suffix_cons _ _, fun j call' o' hj hk => ?_⟩
      have hkeep : ∀ {id}, ReadOpen j id w → ReadOpen j id w' :=
        readOpen_exec hx fun h => absurd h hj
      exact ⟨fun d ho => hkeep (hk.1 d ho), fun q ho u role dto hc =>
        hkeep (hk.2 q ho u role dto hc)⟩)
    fun {s s' l} hsame hinv => by
      have hkeep : ∀ {j id}, ReadOpen j id ⟨s, l⟩ → ReadOpen j id ⟨s', l⟩ :=
        fun {j id} h => (hsame.marketStatus id).trans h
      exact ⟨same_tables hsame hinv, List.suffix_rfl, fun j call' o' hk =>
        ⟨fun d ho => hkeep (hk.1 d ho), fun q ho u role dto hc => hkeep (hk.2 q ho u role dto hc)⟩⟩

/-! ## The calls -/

/-- Operations after the read need to know of it. -/
def Harmless (o : ApiOp) : Prop := (∀ q, o ≠ .wallet q) ∧ ∀ d, o ≠ .betSave d

theorem Harmless.known (h : Harmless o) (w : World api) : knowledge.K i call o w :=
  ⟨fun d ho => absurd ho (h.2 d), fun q ho => absurd ho (h.1 q)⟩

/-- So do operations of other calls, which insert no bet. -/
theorem known_of_not_placeBet (hcall : ∀ u role dto, call ≠ .placeBet u role dto)
    (ho : ∀ d, o ≠ .betSave d) (w : World api) : knowledge.K i call o w :=
  ⟨fun d h => absurd h (ho d), fun _ _ u role dto h => absurd h (hcall u role dto)⟩

theorem closed_lasts : knowledge.Lasts fun w => ClosedBy w.trace i id := by
  rintro w w' hle ⟨x, hx, hrest⟩
  exact ⟨x, hle.subset hx, hrest⟩

/-- What a returned call that closes its market has done. -/
def Post (i : Nat) (call : ApiCall) (r : Except Err ApiReply) (w : World api) : Prop :=
  ∀ a, r = .ok a → ∀ id ∈ call.closes?, ClosedBy w.trace i id

theorem post_lasts {r : Except Err ApiReply} : knowledge.Lasts (Post i call r) :=
  fun hle h a ha id hcall => closed_lasts hle (h a ha id hcall)

/-- An answered save of another status closes the market. -/
theorem closed_of_save {m : Market} {a : Market} (hm : m.id = id) (hst : m.status ≠ .OPEN)
    (hx : api.Exec i call (.marketSave m) w (.ok a) w') : ClosedBy w'.trace i id := by
  obtain ⟨ch, -, htr⟩ := api_exec_ok hx
  exact ⟨_, htr ▸ List.mem_cons_self, rfl, m.status, savedStatus?_save rfl rfl hm, hst⟩

/-- The debit keeps what the call knows of the market it read. -/
theorem safe_debit {u : Uuid} {role : Role} {dto : PlaceBetDto} {d : Option String}
    (hw : ReadOpen i dto.marketId w) :
    knowledge.rules.Safe i (.placeBet u role dto)
      (fun r w' => ∀ x, r = .ok x → ReadOpen i dto.marketId w')
      (Api.wallet (WalletService.debit u dto.stakeCents dto.clientMutationId d)) w := by
  have hop : ∀ {q : WalletOp} {w : World api}, ReadOpen i dto.marketId w →
      knowledge.rules.Safe i (.placeBet u role dto)
        (fun r w' => ∀ x, r = .ok x → ReadOpen i dto.marketId w')
        (Prog.perform (S := ApiSig) (.wallet q)) w := by
    intro q w hw
    have hknown : Known i (.placeBet u role dto) (.wallet q) w := by
      refine ⟨fun d hd => absurd hd (by simp), fun _ _ u' role' dto' hc => ?_⟩
      obtain ⟨-, -, rfl⟩ := ApiCall.placeBet.inj hc
      exact hw
    refine Knowledge.safe_opIn (J := fun _ => True) (fun _ h => h) trivial hknown
      fun {w₁ r w₂} _ _ hk _ hx _ _ x _ => ?_
    exact readOpen_exec hx.exec (by simp) (hk.2 q rfl u role dto rfl)
  rw [Api.wallet_debit]
  refine Rules.safe_seq (hop hw) (fun existing w' h => ?_) fun e _ _ x h => absurd h (by simp)
  cases existing with
  | some tx => exact fun _ _ => h _ rfl
  | none => exact hop (h _ rfl)

/-- **`placeBet` inserts into a market that it read open.** -/
theorem safe_placeNewBet {u : Uuid} {role : Role} {dto : PlaceBetDto} (w : World api) :
    knowledge.rules.Safe i (.placeBet u role dto) (fun _ _ => True)
      (BettingService.placeNewBet u dto) w := by
  unfold BettingService.placeNewBet MarketService.assertMarketOpen
  rw [bind_assoc]
  refine Rules.safe_bind.mpr (ApiRules.safe_getMarketById
    (Harmless.known (by simp [Harmless]) w) ?_ fun _ _ => trivial)
  intro market w₁ w₂ _ hx _
  obtain ⟨hm, hs⟩ := api_marketFindOne_ok hx
  obtain ⟨took, htr⟩ := hx.entry
  dsimp only
  split
  · trivial
  rename_i hopen
  have hread : ReadOpen i dto.marketId w₂ := by
    unfold ReadOpen sinceRead
    rw [htr, List.takeWhile_cons_of_neg (by simp), hs, Store.marketStatus, ← hm]
    exact congrArg some (not_not.mp hopen)
  rw [pure_bind]
  refine Rules.safe_seq (safe_debit hread) (fun x w hw => ?_) fun _ _ _ => trivial
  have hknown : Known i (.placeBet u role dto)
      (.betSave (BettingService.newBet u dto market)) w := by
    refine ⟨fun d hd => ?_, fun q hq => absurd hq (by simp)⟩
    obtain rfl := ApiOp.betSave.inj hd
    exact hw x rfl
  refine Rules.safe_bind.mpr (Knowledge.safe_op' hknown fun {w₁ r w₂} _ _ _ _ => ?_)
  cases r with
  | error e => trivial
  | ok bet =>
    refine ApiRules.safe_then (fun _ => Harmless.known) (Api.all_op (by simp [Harmless]))
      (fun _ w => ?_) fun _ _ => trivial
    exact ApiRules.safe_then (fun _ => Harmless.known) (Api.all_op (by simp [Harmless]))
      (fun _ _ => trivial) fun _ _ => trivial

/-- The save of `suspend` and `settle` closes the market. -/
theorem safe_close {m : Market} (hm : m.id = id) (hst : m.status ≠ .OPEN)
    (hcall : ∀ u role dto, call ≠ .placeBet u role dto) (w : World api) :
    knowledge.rules.Safe i call (fun r w' => ∀ a, r = .ok a → ClosedBy w'.trace i id)
      (do
        let saved ← Api.marketSave m
        Api.publishNotification (.MARKET_UPDATED saved.id saved.name saved.status saved.oddsInt)
        return saved.toDto) w := by
  refine Rules.safe_bind.mpr (Knowledge.safe_op' (known_of_not_placeBet hcall (by simp) w)
    fun {w₁ r w₂} _ _ hx _ => ?_)
  rcases r with e | saved
  · exact fun _ h => absurd h (by simp)
  refine Rules.safe_bind.mpr (Knowledge.safe_op closed_lasts (closed_of_save hm hst hx)
    (known_of_not_placeBet hcall (by simp) w₂) fun {w₃ r w₄} _ _ _ _ _ hclosed => ?_)
  cases r with
  | error e => exact fun _ h => absurd h (by simp)
  | ok x => exact fun _ _ => hclosed

/-- A call reads its market, and closes it as `close` says. -/
theorem safe_getMarketById_then {f : Market → Prog ApiSig MarketResponseDto}
    (hcall : ∀ u role dto, call ≠ .placeBet u role dto)
    (hf : ∀ m, m.id = id → ∀ w, knowledge.rules.Safe i call
      (fun r w' => ∀ a, r = .ok a → ClosedBy w'.trace i id) (f m) w) (w : World api) :
    knowledge.rules.Safe i call
      (fun (r : Except Err ApiReply) w' => ∀ a, r = .ok a → ClosedBy w'.trace i id)
      (.market <$> (MarketService.getMarketById id >>= f)) w := by
  rw [map_eq_pure_bind]
  refine Rules.safe_seq (Q := fun r w' => ∀ a, r = .ok a → ClosedBy w'.trace i id)
    (Rules.safe_bind.mpr (ApiRules.safe_getMarketById
      (known_of_not_placeBet hcall (by simp) w) ?_ ?_)) ?_ ?_
  · intro m w₁ w₂ hinv hx _
    obtain ⟨hm, -⟩ := api_marketFindOne_ok hx
    exact hf m (hinv.marketIds id m hm.symm) w₂
  · exact fun e w₂ a h => absurd h (by simp)
  · exact fun a w' h _ _ => h a rfl
  · exact fun e w' _ a h => absurd h (by simp)

/-- Every call is safe: only `placeBet` inserts bets. -/
theorem safe_body (call : ApiCall) (w : World api) :
    knowledge.rules.Safe i call (Post i call) call.body w := by
  cases call with
  | placeBet u role dto =>
    refine (ApiRules.safe_map (ApiRules.safe_placeBet (P := Harmless) (fun _ => Harmless.known)
      (by simp [Harmless]) (by simp [Harmless]) (by simp [Harmless]) safe_placeNewBet w)).mono ?_
    exact fun _ _ _ a _ id h => absurd h (by simp [ApiCall.closes?])
  | suspend id =>
    refine (safe_getMarketById_then (by simp) (fun m (hm : m.id = id) w => ?_) w).mono
      fun r w h a ha id' hid' => ?_
    · split
      · exact fun _ h => absurd h (by simp)
      · refine safe_close (m := { m with status := .SUSPENDED }) hm ?_ ?_ w <;> simp
    · obtain rfl := Option.some.inj hid'
      exact h a ha
  | settle id result =>
    refine (safe_getMarketById_then (by simp) (fun m (hm : m.id = id) w => ?_) w).mono
      fun r w h a ha id' hid' => ?_
    · split
      · exact fun _ h => absurd h (by simp)
      have hP : ∀ o, (∀ d, o ≠ .betSave d) → ∀ w, knowledge.K i (.settle id result) o w :=
        fun o ho => known_of_not_placeBet (by simp) ho
      refine ApiRules.safe_then hP (Api.all_op (by simp)) (fun bets w => ?_)
        fun _ _ _ h => absurd h (by simp)
      refine ApiRules.safe_then hP
        (Prog.All.forM fun b _ => (settleBet_footprint id result m b).mono ?_) (fun _ w => ?_)
        fun _ _ _ h => absurd h (by simp)
      · rintro o ho d rfl
        cases ho
      · refine safe_close (m := { m with status := .SETTLED }) hm ?_ ?_ w <;> simp
    · obtain rfl := Option.some.inj hid'
      exact h a ha
  | _ =>
    refine (Knowledge.safe_of_known (fun o ho => known_of_not_placeBet (by simp) ho)
      ((body_footprint _).mono ?_) w).mono
      fun _ _ _ a _ id h => absurd h (by simp [ApiCall.closes?])
    rintro o ho d rfl
    cases ho

/-- Every thread of every run knows of the market it bets on, and what every returned call did. -/
theorem reach {c : Config api} (hc : api.Reachable (api.init .empty) c) :
    Inv c.toWorld ∧ (∀ i call o, c.Waits i call o → Known i call o c.toWorld) ∧
      ∀ i call a, c.Returned i call a → Post i call (.ok a) c.toWorld := by
  have hgood := Knowledge.reach (D := knowledge) (fun _ => trivial) Post
    (fun _ _ _ _ _ _ _ _ _ _ => trivial) (fun _ _ _ => post_lasts)
    (fun _ call w _ => safe_body call w)
    ⟨fun _ _ h => absurd h (by simp [Store.empty]), fun _ _ h => absurd h (by simp [lastSaved])⟩ hc
  exact ⟨hgood.1, fun i call o hw => hgood.2.1 i call o hw fun _ _ => trivial, hgood.2.2⟩

/-- Inserts into open markets are after their reopening. -/
theorem insertsOpen_iff {c : Config api} (hc : api.Reachable (api.init .empty) c) :
    InsertsOpen c ↔ ∀ x ∈ c.trace, x.took = true → ∀ d, x.op = .betSave d →
      x.before.marketStatus d.marketId = some .OPEN := by
  refine ⟨InsertsOpen.whenOpen, fun h => ⟨h, fun l x l' hl ht d ho st hst => ?_⟩⟩
  obtain ⟨c', hc', hw⟩ := api.world_of_trace hc hl
  have hinv := (reach hc').1
  rw [hw] at hinv
  have hopen := h x (hl ▸ List.mem_append_right l List.mem_cons_self) ht d ho
  exact Option.some.inj ((hinv.saved _ st hst).symm.trans hopen)

/-- One step keeps the inserts in open markets exactly when its insert is in time. -/
theorem insertsOpen_step {c c' : Config api} {e : Event api}
    (hc : api.Reachable (api.init .empty) c) (h : InsertsOpen c) (hs : api.step c e = some c') :
    InsertsOpen c' ↔ InTime c e := by
  have hc' : api.Reachable (api.init .empty) c' := .step e hc trivial hs
  have hidle : c'.trace = c.trace → (InsertsOpen c' ↔ InTime c e) := by
    intro htr
    refine iff_of_true ((insertsOpen_iff hc').mpr (htr ▸ h.whenOpen)) ?_
    rintro x ⟨c₂, hs₂, hx⟩
    obtain rfl := Option.some.inj (hs.symm.trans hs₂)
    exact absurd (htr.symm.trans hx).symm (List.cons_ne_self x _)
  rcases api.step_cases hs with ⟨i, call, s, rfl, -, -, rfl⟩ |
    ⟨i, m, call, o, k, r, w', rfl, hi, hx, rfl⟩ | ⟨i, call, o, k, rfl, -, rfl⟩ |
    ⟨v, s, rfl, -, rfl⟩
  · exact hidle rfl
  · obtain ⟨took, htr⟩ := hx.entry
    -- what the call knows: the status is the one saved since its read
    have hknown := ((reach hc).2.1 i call o ⟨k, hi⟩).1
    rw [insertsOpen_iff hc']
    constructor
    · rintro hopen x ⟨c₂, hs₂, hx₂⟩ ht d ho st hst
      obtain rfl := Option.some.inj (hs.symm.trans hs₂)
      obtain rfl := (List.cons.inj (htr.symm.trans hx₂)).1
      have hnow := hopen _ (htr ▸ List.mem_cons_self) ht d ho
      have hread := hknown d ho
      unfold ReadOpen at hread
      rw [Option.mem_def.mp hst] at hread
      exact Option.some.inj (hread.symm.trans hnow)
    · intro hin x hx ht d ho
      rcases List.mem_cons.mp (htr ▸ hx) with rfl | hx
      · have hread := hknown d ho
        unfold ReadOpen at hread
        rw [hread]
        cases hl : lastSaved d.marketId (sinceRead i d.marketId c.trace) with
        | none => rfl
        | some st => exact congrArg some (hin _ ⟨_, hs, htr⟩ ht d ho st hl)
      · exact h.whenOpen x hx ht d ho
  · exact hidle rfl
  · exact hidle rfl

end Late

/-- **Bets are inserted into open markets exactly when every insert is in time**; the calls that
close a market have saved it when they return. -/
theorem api_inserts_open_iff {es : List (Event api)} {c : Config api}
    (hr : api.replay (api.init .empty) es = some c) :
    (InsertsOpen c ↔ api.Meets InTime (api.init .empty) es) ∧
      ∀ i call a, c.Returned i call a → ∀ id ∈ call.closes?, ClosedBy c.trace i id := by
  refine ⟨api.iff_meets Late.insertsOpen_step (fun hs h => ?_) .init ?_ hr,
    fun i call a ha id => ?_⟩
  · obtain ⟨t, ht⟩ := api.trace_step hs
    refine ⟨fun x hx => h.whenOpen x (ht ▸ List.mem_append_right t hx), fun l x l' hl => ?_⟩
    exact h.reopened (t ++ l) x l' (by rw [← ht, hl, List.append_assoc])
  · exact ⟨by simp [Machine.init], by simp [Machine.init]⟩
  · exact (Late.reach (.of_replay .init hr)).2.2 i call a ha a rfl id

/-- A bet that is placed while nobody touches the market. -/
theorem api_inserts_open_one : ∃ c, api.replay (api.init .empty) (openMarket ++
      .spawn 2 (bet100 2) :: proceed 2 8) = some c ∧ c.state.bets.length = 1 ∧
    (InsertsOpen c ↔ api.Meets InTime (api.init .empty) (openMarket ++
      .spawn 2 (bet100 2) :: proceed 2 8)) :=
  ⟨_, rfl, rfl, (api_inserts_open_iff rfl).1⟩

/-- A whole suspension, between the read and the insert of a bet. -/
def suspendAfterRead : List (Event api) :=
  openMarket ++ .spawn 2 (bet100 2) :: proceed 2 3 ++ .spawn 3 (.suspend 50) :: proceed 3 3

/-- The suspension has returned and there is no bet yet; then the bet is inserted. -/
theorem api_late_bet : ∃ c c', api.Reachable (api.init .empty) c ∧
    (∃ a, c.Returned 3 (.suspend 50) a) ∧ c.state.bets = [] ∧
    api.replay c (proceed 2 5) = some c' ∧ c'.state.bets.length = 1 ∧ ¬ InsertsOpen c' := by
  obtain ⟨c, hc, ha, hb⟩ : ∃ c, api.replay (api.init .empty) suspendAfterRead = some c ∧
      (∃ a, c.Returned 3 (.suspend 50) a) ∧ c.state.bets = [] := ⟨_, rfl, ⟨_, rfl⟩, rfl⟩
  obtain ⟨c', hr, hl, x, hx, ht, d, ho, hst⟩ : ∃ c', (api.replay (api.init .empty)
      suspendAfterRead).bind (api.replay · (proceed 2 5)) = some c' ∧ c'.state.bets.length = 1 ∧
      ∃ x ∈ c'.trace, x.took = true ∧ ∃ d, x.op = .betSave d ∧
        x.before.marketStatus d.marketId = some .SUSPENDED := by
    refine ⟨_, rfl, rfl, ?_⟩
    exact ⟨_, .tail _ (.tail _ (.head _)), rfl, _, rfl, rfl⟩
  rw [hc] at hr
  refine ⟨c, c', .of_replay .init hc, ha, hb, hr, hl, fun h => ?_⟩
  exact absurd (hst.symm.trans (h.whenOpen x hx ht d ho)) (by simp)

end BoltBet
