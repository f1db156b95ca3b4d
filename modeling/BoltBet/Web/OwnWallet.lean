import BoltBet.Web.Tab

/-!
# Whose wallet is shown

The wallet slice and the balance query outlive a session that ends with a refused refresh: only
`logout` clears them. Whoever logs in next sees the balance of the user before.

* `FetchedBy`: a balance was fetched with a token of this user.
* `OwnWallet`: what the slice and the query hold, the user who is logged in has fetched.
* `KeepsToUser`: the condition on a step.
* `own_wallet_iff`: throughout a run exactly when every step meets it.
-/

namespace BoltBet

open Async

/-- A balance was fetched with a token of this user. -/
def FetchedBy (user : AuthUser) (fetchedWith : Option String) : Prop :=
  ∃ token holder, fetchedWith = some ("Bearer " ++ token) ∧ decodeToken token = .ok holder ∧
    holder.id = user.id

/-- Everything that is held of the wallet, this user has fetched. -/
structure Tab.HoldsFor (s : Tab) (user : AuthUser) : Prop where
  slice : s.wallet.isLoaded = true → FetchedBy user s.wallet.fetchedWith
  query : ∀ data, s.query.data = some data → FetchedBy user data.fetchedWith

/-- **No other user's wallet**: what is held, the user who is logged in has fetched. -/
def Tab.OwnWallet (s : Tab) : Prop := ∀ user, s.user = some user → s.HoldsFor user

/-- **The condition**: a user is logged in only while nothing is held, or what this user fetched;
and while a user is logged in, the query and the slice take nothing but what this user fetched. -/
structure KeepsToUser (c : Config tab) (e : Event tab) : Prop where
  login : ∀ i call accessToken user, Does c e i call (.web (.setCredentials accessToken)) →
    decodeToken accessToken = .ok user → c.state.HoldsFor user
  fetch : ∀ i call data, Does c e i call (.setData data) →
    ∀ user, c.state.user = some user → FetchedBy user (c.state.lastSent i)
  sync : ∀ i call data, Does c e i call (.setBalance data) →
    ∀ user, c.state.user = some user → FetchedBy user data.fetchedWith

namespace OwnWallet

variable {c c' : Config tab} {e : Event tab}

/-- A step that takes nothing and logs nobody in. -/
theorem keeps_other {i : Nat} {call : TabCall} {o : TabOp} (h : Does c e i call o)
    (hset : ∀ t, o ≠ .web (.setCredentials t)) (hfetch : ∀ data, o ≠ .setData data)
    (hsync : ∀ data, o ≠ .setBalance data) : KeepsToUser c e where
  login _ _ t _ h' _ := absurd (h.unique h').2.2 (hset t)
  fetch _ _ data h' := absurd (h.unique h').2.2 (hfetch data)
  sync _ _ data h' := absurd (h.unique h').2.2 (hsync data)

/-- A login keeps to the user exactly when the user who is logged in holds everything. -/
theorem keeps_login {i : Nat} {call : TabCall} {t : String} {user : AuthUser}
    (h : Does c e i call (.web (.setCredentials t))) (hd : decodeToken t = .ok user) :
    KeepsToUser c e ↔ c.state.HoldsFor user := by
  refine ⟨fun hok => hok.login i call t user h hd, fun hholds => ⟨?_, ?_, ?_⟩⟩
  · intro j call' t' user' h' hd'
    obtain ⟨-, -, ho⟩ := h.unique h'
    obtain rfl := WebOp.setCredentials.inj (TabOp.web.inj ho)
    obtain rfl := Except.ok.inj (hd.symm.trans hd')
    exact hholds
  · exact fun j call' data h' => absurd (h.unique h').2.2 (by simp)
  · exact fun j call' data h' => absurd (h.unique h').2.2 (by simp)

theorem keeps_fetch {i : Nat} {call : TabCall} {data : Body}
    (h : Does c e i call (.setData data)) : KeepsToUser c e ↔
      ∀ user, c.state.user = some user → FetchedBy user (c.state.lastSent i) := by
  refine ⟨fun hok => hok.fetch i call data h, fun hfetched => ⟨?_, ?_, ?_⟩⟩
  · exact fun j call' t user h' => absurd (h.unique h').2.2 (by simp)
  · intro j call' data' h'
    obtain ⟨rfl, -, -⟩ := h.unique h'
    exact hfetched
  · exact fun j call' data' h' => absurd (h.unique h').2.2 (by simp)

theorem keeps_sync {i : Nat} {call : TabCall} {data : Balance}
    (h : Does c e i call (.setBalance data)) : KeepsToUser c e ↔
      ∀ user, c.state.user = some user → FetchedBy user data.fetchedWith := by
  refine ⟨fun hok => hok.sync i call data h, fun hfetched => ⟨?_, ?_, ?_⟩⟩
  · exact fun j call' t user h' => absurd (h.unique h').2.2 (by simp)
  · exact fun j call' data' h' => absurd (h.unique h').2.2 (by simp)
  · intro j call' data' h'
    obtain ⟨-, -, ho⟩ := h.unique h'
    obtain rfl := TabOp.setBalance.inj ho
    exact hfetched

/-- **A step**: everything stays the user's own exactly when it meets the condition. -/
theorem own_step (hc : c.state.OwnWallet) (h : tab.step c e = some c') :
    c'.state.OwnWallet ↔ KeepsToUser c e := by
  rcases tab_step_cases h with ⟨i, call, o, hdoes, -, heff⟩ | ⟨hno, hview, -⟩
  · generalize c'.state = s' at heff
    cases heff with
    | @setCredentials t user hd =>
      rw [keeps_login hdoes hd]
      constructor
      · exact fun hown => ⟨(hown user rfl).slice, (hown user rfl).query⟩
      · rintro hholds user' huser
        obtain rfl := Option.some.inj huser
        exact ⟨hholds.slice, hholds.query⟩
    | clearCredentials | clearSession =>
      refine iff_of_true (fun user huser => absurd huser (by simp [Tab.clearCredentials])) ?_
      exact keeps_other hdoes (by simp) (by simp) (by simp)
    | @setData data hf =>
      rw [keeps_fetch hdoes]
      refine ⟨fun hown user huser => (hown user huser).query _ rfl, fun hok user huser => ?_⟩
      refine ⟨(hc user huser).slice, fun data' hdata => ?_⟩
      obtain rfl := Option.some.inj hdata
      exact hok user huser
    | setBalance data =>
      rw [keeps_sync hdoes]
      refine ⟨fun hown user huser => (hown user huser).slice rfl, fun hok user huser => ?_⟩
      exact ⟨fun _ => hok user huser, (hc user huser).query⟩
  · refine iff_of_true (fun user huser => ?_)
      ⟨fun i call t user h' _ => absurd h' (hno i call _),
        fun i call data h' => absurd h' (hno i call _),
        fun i call data h' => absurd h' (hno i call _)⟩
    rw [hview.user] at huser
    refine ⟨fun hloaded => ?_, fun data hdata => (hc user huser).query data (hview.data data hdata)⟩
    rw [hview.wallet] at hloaded ⊢
    exact (hc user huser).slice hloaded

/-- The user who is logged in is the one the token names. -/
def Named (s : Tab) : Prop := ∀ user, s.user = some user →
  ∃ token, s.accessToken = some token ∧ decodeToken token = .ok user

theorem named (h : tab.Reachable (tab.init {}) c) : Named c.state := by
  induction h with
  | init => exact fun user huser => absurd huser (by simp [Machine.init])
  | @step c c' e _ _ hs ih =>
    rcases tab_step_cases hs with ⟨i, call, o, -, -, heff⟩ | ⟨-, hview, -⟩
    · generalize c'.state = s' at heff
      cases heff with
      | @setCredentials t user hd =>
        rintro user' huser
        obtain rfl := Option.some.inj huser
        exact ⟨t, rfl, hd⟩
      | clearCredentials | clearSession =>
        exact fun user huser => absurd huser (by simp [Tab.clearCredentials])
      | setData | setBalance => exact ih
    · intro user huser
      obtain ⟨token, htoken, hd⟩ := ih user (hview.user ▸ huser)
      exact ⟨token, hview.accessToken.trans htoken, hd⟩

/-- Everything that is held was fetched with the token in the store. -/
def HeldWithToken (s : Tab) : Prop := ∀ token ∈ s.accessToken,
  (s.wallet.isLoaded = true → s.wallet.fetchedWith = some ("Bearer " ++ token)) ∧
    ∀ data ∈ s.query.data, data.fetchedWith = some ("Bearer " ++ token)

instance (s : Tab) : Decidable (HeldWithToken s) :=
  inferInstanceAs (Decidable (∀ token ∈ s.accessToken, _ ∧ _))

/-- Then it is the user's own. -/
theorem own_of_token (h : tab.Reachable (tab.init {}) c) (hheld : HeldWithToken c.state) :
    c.state.OwnWallet := by
  intro user huser
  obtain ⟨token, htoken, hd⟩ := named h user huser
  obtain ⟨hslice, hquery⟩ := hheld token htoken
  exact ⟨fun hloaded => ⟨token, user, hslice hloaded, hd, rfl⟩,
    fun data hdata => ⟨token, user, hquery data hdata, hd, rfl⟩⟩

/-- An id names one text. -/
theorem named_unique {id id' : String} {user user' : AuthUser} (h : user.named id = true)
    (h' : user'.named id' = true) (hid : user.id = user'.id) : id = id' := by
  unfold AuthUser.named at h h'
  rw [← hid] at h'
  split at h
  · rename_i us hus
    rw [hus] at h'
    have htext := (of_decide_eq_true h).symm.trans (of_decide_eq_true h')
    rw [← Json.untext_text id, htext, Json.untext_text]
  · exact absurd h (by simp)

end OwnWallet

open OwnWallet

/-- **The wallet that is shown is the user's own** throughout a run exactly when every step meets
the condition. -/
theorem own_wallet_iff {es : List (Event tab)} {c : Config tab}
    (hr : tab.replay (tab.init {}) es = some c) :
    (∀ es' c', es' <+: es → tab.replay (tab.init {}) es' = some c' → c'.state.OwnWallet) ↔
      tab.Meets KeepsToUser (tab.init {}) es :=
  Machine.throughout_iff (fun _ hc h => OwnWallet.own_step hc h) .init
    (fun _ h => absurd h (by simp [Machine.init])) hr

/-- User 7 logs in, and the balance is fetched and shown. -/
def showsBalance : List (Event tab) :=
  signsInAs 0 1 token7 ++ .spawn 1 .fetchBalance :: goes 1 [{}, {}, { id := 2 }] ++
  answered 2 200 { balanceCents := some 500, balanceDisplay := some "$5.00" } .keep ::
  goes 1 [{}, {}] ++ .spawn 2 .syncBalance :: goes 2 [{}, {}]

/-- User 7 logs out before user 8 logs in. -/
def throughLogout : List (Event tab) :=
  showsBalance ++ .spawn 3 .logout :: goes 3 [{}, { id := 3 }] ++
  .env (.arrive 3 { status := 204, setCookie := .clear }) :: goes 3 [{}, {}] ++
  signsInAs 4 4 token8

/-- The session of user 7 ends with a refused refresh before user 8 logs in. -/
def throughExpiry : List (Event tab) :=
  showsBalance ++ refusedOnce 3 3 4 ++ refusedTwice 3 4 ++ signsInAs 4 5 token8

/-- After a logout nothing is left for user 8. -/
theorem own_wallet_through_logout : ∃ c, tab.replay (tab.init {}) throughLogout = some c ∧
    c.state.accessToken = some token8 ∧ c.state.OwnWallet ∧
    tab.Meets KeepsToUser (tab.init {}) throughLogout := by
  obtain ⟨c, hr, hc⟩ : ∃ c, tab.replay (tab.init {}) throughLogout = some c ∧
      decide (c.state.accessToken = some token8) = true :=
    Machine.exists_of_replay _ (by decide +kernel)
  have hall : ∀ k ≤ throughLogout.length, (tab.replay (tab.init {}) (throughLogout.take k)).all
      (fun c => decide (HeldWithToken c.state)) = true := by decide +kernel
  have hown : ∀ es' c', es' <+: throughLogout → tab.replay (tab.init {}) es' = some c' →
      c'.state.OwnWallet := by
    intro es' c' hes hc'
    have htake := hall es'.length hes.length_le
    rw [← List.prefix_iff_eq_take.mp hes, hc'] at htake
    exact own_of_token (.of_replay .init hc') (by simpa using htake)
  exact ⟨c, hr, of_decide_eq_true hc, hown _ c List.prefix_rfl hr, (own_wallet_iff hr).mp hown⟩

/-- **Another user's balance**: after the expired session of user 7, user 8 is logged in while the
slice and the query still hold what the token of user 7 fetched. -/
theorem other_wallet_shown : ∃ c, tab.Reachable (tab.init {}) c ∧
    c.state.accessToken = some token8 ∧
    c.state.wallet = ⟨some 500, some "$5.00", true, some ("Bearer " ++ token7)⟩ ∧
    ¬ c.state.OwnWallet := by
  obtain ⟨c, hr, hc⟩ : ∃ c, tab.replay (tab.init {}) throughExpiry = some c ∧
      (decide (c.state.accessToken = some token8 ∧
        c.state.wallet = ⟨some 500, some "$5.00", true, some ("Bearer " ++ token7)⟩) &&
        c.state.user.any (AuthUser.named "8")) = true :=
    Machine.exists_of_replay _ (by decide +kernel)
  obtain ⟨hview, huser⟩ := Bool.and_eq_true_iff.mp hc
  obtain ⟨htoken, hwallet⟩ := of_decide_eq_true hview
  refine ⟨c, .of_replay .init hr, htoken, hwallet, fun hown => ?_⟩
  obtain ⟨user, huser, hnamed⟩ := (Option.any_eq_true _ _).mp huser
  obtain ⟨token, holder, hheader, hd, hid⟩ := (hown user huser).slice (by rw [hwallet])
  rw [hwallet] at hheader
  obtain rfl : token7 = token := String.append_right_inj _ |>.mp (Option.some.inj hheader)
  have h7 : (decodeToken token7).toOption.any (AuthUser.named "7") = true := by decide +kernel
  have hholder : AuthUser.named "7" holder = true := by simpa [hd, Except.toOption] using h7
  exact absurd (named_unique hholder hnamed hid) (by simp)

end BoltBet
