import BoltBet.Web.Tab

/-!
# Logging out, in the browser

`logout` clears the slice `auth`. A request that was refused before may still wait for its refresh;
`request` dispatches the credentials of a refresh whenever its response arrives. So may a `login`
that was under way.

* `loggedOut?`: the operations executed before the last logout, until a login that started after it
  succeeds. A call starts with its first operation, as JavaScript runs it up to there at once.
* `LogoutSticks`: while logged out, there are no credentials.
* `StaysLoggedOut`: the condition on a step.
* `logout_sticks_iff`: logouts stick throughout a run exactly when every step meets it.
-/

namespace BoltBet

open Async

/-- The calls of `login`. -/
def TabCall.isLogin : TabCall → Bool
  | .login _ => true
  | _ => false

/-- The operation dispatches credentials. -/
def TabOp.signsIn : TabOp → Bool
  | .web (.setCredentials _) => true
  | _ => false

/-- Thread `i` runs a login that started after these operations. -/
def LogsInAfter (before : List (Entry tab)) (i : Nat) (call : TabCall) : Prop :=
  call.isLogin = true ∧ ∀ z ∈ before, z.tid ≠ i

instance (before : List (Entry tab)) (i : Nat) (call : TabCall) :
    Decidable (LogsInAfter before i call) := inferInstanceAs (Decidable (_ ∧ _))

/-- The operations executed before the last logout, while no login that started after it has
succeeded; the last one first. -/
def loggedOut? : List (Entry tab) → Option (List (Entry tab))
  | [] => none
  | x :: older =>
    if x.took = true ∧ x.op = .clearSession then some older
    else (loggedOut? older).bind fun before =>
      if x.took = true ∧ x.op.signsIn = true ∧ LogsInAfter before x.tid x.call then none
      else some before

/-- No credentials. -/
structure Tab.SignedOut (s : Tab) : Prop where
  accessToken : s.accessToken = none
  user : s.user = none
  isAuthenticated : s.isAuthenticated = false

instance (s : Tab) : Decidable s.SignedOut :=
  decidable_of_iff (s.accessToken.isNone = true ∧ s.user.isNone = true ∧ s.isAuthenticated = false)
    ⟨fun h => ⟨Option.isNone_iff_eq_none.mp h.1, Option.isNone_iff_eq_none.mp h.2.1, h.2.2⟩,
      fun h => ⟨Option.isNone_iff_eq_none.mpr h.1, Option.isNone_iff_eq_none.mpr h.2, h.3⟩⟩

/-- **A logout sticks.** -/
def LogoutSticks (c : Config tab) : Prop := (loggedOut? c.trace).isSome = true → c.state.SignedOut

instance (c : Config tab) : Decidable (LogoutSticks c) :=
  inferInstanceAs (Decidable ((loggedOut? c.trace).isSome = true → c.state.SignedOut))

/-- **The condition**: while logged out, the step dispatches no credentials but those of a login
that started after the logout. -/
def StaysLoggedOut (c : Config tab) (e : Event tab) : Prop :=
  ∀ i call accessToken, Does c e i call (.web (.setCredentials accessToken)) →
    ∀ before ∈ loggedOut? c.trace, LogsInAfter before i call

namespace Logout

variable {c c' : Config tab} {e : Event tab} {x : Entry tab} {older : List (Entry tab)}

theorem signedOut_of_view {s s' : Tab} (h : s.SameView s') (hs : s.SignedOut) : s'.SignedOut :=
  ⟨h.accessToken.trans hs.accessToken, h.user.trans hs.user,
    h.isAuthenticated.trans hs.isAuthenticated⟩

/-- Other operations neither end nor begin being logged out. -/
theorem loggedOut_other (h : x.took = true → x.op.bounds = false) :
    loggedOut? (x :: older) = loggedOut? older := by
  have hclear : ¬ (x.took = true ∧ x.op = .clearSession) := by
    rintro ⟨htook, ho⟩
    exact absurd (ho ▸ h htook) (by simp [TabOp.bounds])
  have hkeep : (fun before : List (Entry tab) =>
      if x.took = true ∧ x.op.signsIn = true ∧ LogsInAfter before x.tid x.call then none
      else some before) = some := by
    funext before
    refine if_neg fun hin => ?_
    have hb := h hin.1
    have hs := hin.2.1
    unfold TabOp.signsIn at hs
    split at hs
    · rename_i ho
      exact absurd (ho ▸ hb) (by simp [TabOp.bounds])
    · exact absurd hs (by simp)
  rw [loggedOut?, if_neg hclear, hkeep, Option.bind_fun_some]

/-- Credentials were dispatched. -/
theorem loggedOut_signsIn {i : Nat} {call : TabCall} {t : String} {s : Tab} :
    loggedOut? (⟨i, call, .web (.setCredentials t), true, s⟩ :: older) = none ↔
      ∀ before ∈ loggedOut? older, LogsInAfter before i call := by
  rw [loggedOut?, if_neg (by simp), Option.bind_eq_none_iff]
  refine forall₂_congr fun before _ => ?_
  rw [ite_eq_left_iff]
  simp [TabOp.signsIn]

/-- A step that dispatches other operations meets the condition. -/
theorem stays_other {i : Nat} {call : TabCall} {o : TabOp} (h : Does c e i call o)
    (ho : o.signsIn = false) : StaysLoggedOut c e := by
  intro j call' t h'
  obtain ⟨-, -, rfl⟩ := h.unique h'
  exact absurd ho (by simp [TabOp.signsIn])

/-- With credentials held, no logout is to stick. -/
theorem sticks_iff_none (hin : ¬ c.state.SignedOut) :
    LogoutSticks c ↔ loggedOut? c.trace = none := by
  unfold LogoutSticks
  cases loggedOut? c.trace with
  | none => simp
  | some before => simp [hin]

/-- Being logged out goes on behind an operation that leaves the credentials. -/
theorem sticks_other (hc : LogoutSticks c) (hout : loggedOut? c'.trace = loggedOut? c.trace)
    (hkeeps : c.state.SignedOut → c'.state.SignedOut) : LogoutSticks c' :=
  fun h => hkeeps (hc (hout ▸ h))

/-- **A step**: the logout sticks behind it exactly when it meets the condition. -/
theorem sticks_step (hc : LogoutSticks c) (h : tab.step c e = some c') :
    LogoutSticks c' ↔ StaysLoggedOut c e := by
  rcases tab_step_cases h with ⟨i, call, o, hdoes, htr, heff⟩ | ⟨hno, hview, htr⟩
  · have hgoes : o.bounds = false → loggedOut? c'.trace = loggedOut? c.trace := by
      intro ho
      rw [htr]
      exact loggedOut_other fun _ => ho
    generalize hs' : c'.state = s' at heff
    cases heff with
    | @setCredentials t user hd =>
      have hin : ¬ c'.state.SignedOut := by
        intro hs
        rw [hs'] at hs
        exact absurd hs.accessToken (by simp [Tab.setCredentials])
      rw [sticks_iff_none hin, htr, loggedOut_signsIn]
      constructor
      · intro hall j call' t' hdoes'
        obtain ⟨rfl, rfl, -⟩ := hdoes.unique hdoes'
        exact hall
      · exact fun hok => hok i call t hdoes
    | clearCredentials | clearSession =>
      refine iff_of_true (fun _ => ?_) (stays_other hdoes rfl)
      rw [hs']
      exact ⟨rfl, rfl, rfl⟩
    | setData | setBalance =>
      refine iff_of_true (sticks_other hc (hgoes rfl) fun hout => ?_) (stays_other hdoes rfl)
      rw [hs']
      exact ⟨hout.accessToken, hout.user, hout.isAuthenticated⟩
  · have hsame : loggedOut? c'.trace = loggedOut? c.trace := by
      rcases htr with htr | ⟨x, htr, hx⟩
      · rw [htr]
      · rw [htr, loggedOut_other hx]
    exact iff_of_true (sticks_other hc hsame (signedOut_of_view hview))
      fun i call t hdoes => absurd hdoes (hno i call _)

end Logout

/-- **Logouts stick** throughout a run exactly when every step meets the condition. -/
theorem logout_sticks_iff {s : Tab} {es : List (Event tab)} {c : Config tab}
    (hr : tab.replay (tab.init s) es = some c) :
    (∀ es' c', es' <+: es → tab.replay (tab.init s) es' = some c' → LogoutSticks c') ↔
      tab.Meets StaysLoggedOut (tab.init s) es :=
  Machine.throughout_iff (fun _ hc h => Logout.sticks_step hc h) .init
    (fun h => absurd h (by simp [loggedOut?, Machine.init])) hr

/-- User 7 logs in as request 1. Request 2 is refused and refreshes as request 3, which is under way
while the user logs out as request 4. -/
def logsOutMeanwhile : List (Event tab) :=
  signsInAs 0 1 token7 ++ refusedOnce 1 2 3 ++ .spawn 2 .logout :: goes 2 [{}, { id := 4 }] ++
  .env (.arrive 4 { status := 204, setCookie := .clear }) :: goes 2 [{}, {}]

/-- The API refuses the refresh: the logout sticks. -/
theorem logout_sticks_refused : ∃ c,
    tab.replay (tab.init {}) (logsOutMeanwhile ++ refusedTwice 1 3) = some c ∧
    (loggedOut? c.trace).isSome = true ∧ c.state.SignedOut ∧
    tab.Meets StaysLoggedOut (tab.init {}) (logsOutMeanwhile ++ refusedTwice 1 3) := by
  obtain ⟨c, hr, hc⟩ : ∃ c,
      tab.replay (tab.init {}) (logsOutMeanwhile ++ refusedTwice 1 3) = some c ∧
      ((loggedOut? c.trace).isSome && decide c.state.SignedOut) = true :=
    Machine.exists_of_replay _ (by decide +kernel)
  have hall : ∀ k ≤ (logsOutMeanwhile ++ refusedTwice 1 3).length,
      (tab.replay (tab.init {}) ((logsOutMeanwhile ++ refusedTwice 1 3).take k)).all
        (fun c => decide (LogoutSticks c)) = true := by decide +kernel
  obtain ⟨hout, hsigned⟩ := Bool.and_eq_true_iff.mp hc
  refine ⟨c, hr, hout, of_decide_eq_true hsigned,
    (logout_sticks_iff hr).mp fun es' c' hes hc' => ?_⟩
  have htake := hall es'.length hes.length_le
  rw [← List.prefix_iff_eq_take.mp hes, hc'] at htake
  simpa using htake

/-- **The logout undone**: the API answers the refresh, and the user is logged in again. -/
theorem logout_undone : ∃ c, tab.Reachable (tab.init {}) c ∧
    (loggedOut? c.trace).isSome = true ∧ c.state.accessToken = some token7 ∧
    c.state.isAuthenticated = true ∧ ¬ LogoutSticks c := by
  obtain ⟨c, hr, hc⟩ : ∃ c, tab.replay (tab.init {}) (logsOutMeanwhile ++
        answered 3 200 { accessToken := some token7 } (.set "t") :: goes 1 [{}, {}]) = some c ∧
      ((loggedOut? c.trace).isSome && decide (c.state.accessToken = some token7) &&
        c.state.isAuthenticated) = true :=
    Machine.exists_of_replay _ (by decide +kernel)
  obtain ⟨⟨hout, htoken⟩, hauth⟩ := (Bool.and_eq_true_iff.mp hc).imp Bool.and_eq_true_iff.mp id
  have htoken : c.state.accessToken = some token7 := of_decide_eq_true htoken
  refine ⟨c, .of_replay .init hr, hout, htoken, hauth, fun h => ?_⟩
  exact absurd (htoken.symm.trans (h hout).accessToken) (by simp)

end BoltBet
