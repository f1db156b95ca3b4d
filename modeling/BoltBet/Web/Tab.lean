import BoltBet.Text.Json
import BoltBet.Web.Client

/-!
# A browser tab

What one page load shares: the slices `auth` and `wallet` of the Redux store, and the query
`['wallet', 'balance']` of TanStack Query, beside the jar and the requests of `client.ts`. Any
number of these run, interleaved wherever they await:

* `apiClient` requests, `login` and `logout` of `useAuth.ts`, the refresh of `AuthBootstrap.tsx`;
* the fetches of the balance query and the effect of `useWallet.ts` that copies its data to the
  slice.

What a token says is read as `decodeToken` reads it (`atob`, `JSON.parse`). Navigation is dropped.
The balance is held with the header `Authorization` it was fetched with (`fetchedWith`), which the
code does not keep.
-/

namespace BoltBet

open Async

/-! ## Tokens -/

/-- The value of a character of base64. -/
def sextet (c : Char) : Option Nat :=
  if 'A' ≤ c ∧ c ≤ 'Z' then some (c.toNat - 65)
  else if 'a' ≤ c ∧ c ≤ 'z' then some (c.toNat - 71)
  else if '0' ≤ c ∧ c ≤ '9' then some (c.toNat + 4)
  else if c = '+' then some 62
  else if c = '/' then some 63
  else none

/-- Four characters hold three bytes; two or three at the end hold one or two. -/
def sextetBytes : List Nat → Option (List Nat)
  | [] => some []
  | [_] => none
  | [a, b] => some [a * 4 + b / 16]
  | [a, b, c] => some [a * 4 + b / 16, b % 16 * 16 + c / 4]
  | a :: b :: c :: d :: rest =>
    (sextetBytes rest).map ([a * 4 + b / 16, b % 16 * 16 + c / 4, c % 4 * 64 + d] ++ ·)

/-- Without the padding of a text whose length is a multiple of 4. -/
def unpad (l : List Char) : List Char :=
  if l.length % 4 ≠ 0 then l
  else match l.reverse with
    | '=' :: '=' :: r => r.reverse
    | '=' :: r => r.reverse
    | _ => l

/-- `atob`: the bytes, as characters. -/
def atob (l : List Char) : Option (List Char) :=
  let l := unpad (l.filter fun c => c ∉ [' ', '\t', '\n', '\r', Char.ofNat 12])
  (l.mapM sextet).bind fun sextets => (sextetBytes sextets).map fun bytes => bytes.map Char.ofNat

/-- A property that was read: a parsed value, or the method `String.prototype.sub`. -/
inductive Property where
  | json (value : Json.Value)
  | sub

/-- `AuthUser`, as it was parsed: a property that is missing is `none`. -/
structure AuthUser where
  id : Option Property
  email : Property
  role : Option Property

/-- The id of the user is this text. -/
def AuthUser.named (id : String) (user : AuthUser) : Bool :=
  match user.id with
  | some (.json (.string us)) => us = Json.text id
  | _ => false

/-- A property of a parsed value: `null` has none, and of two members the later counts. Of the
three that are read, a text has the method `sub`; numbers, booleans and arrays have none. -/
def jsonProperty (json : Json.Value) (key : String) : Except WebErr (Option Property) :=
  match json with
  | .null => .error .TypeError
  | .object members =>
    .ok ((members.reverse.find? fun m => m.1 = Json.text key).map fun m => .json m.2)
  | .string _ => .ok (if key = "sub" then some .sub else none)
  | _ => .ok none

/-- The two `replace` of `decodeToken`: the URL alphabet back to the plain one. -/
def unurl (c : Char) : Char := if c = '-' then '+' else if c = '_' then '/' else c

/-- `decodeToken`. -/
def decodeToken (token : String) : Except WebErr AuthUser := do
  match (token.toList.splitOn '.')[1]? with
  | none => .error .TypeError
  | some payloadB64 =>
    match atob (payloadB64.map unurl) with
    | none => .error .SyntaxError
    | some text =>
      match Json.parse text with
      | none => .error .SyntaxError
      | some json =>
        let id ← jsonProperty json "sub"
        let email ← jsonProperty json "email"
        let role ← jsonProperty json "role"
        return {
          id := id
          email := match email with
            | none | some (.json .null) => .json (.string [])
            | some email => email
          role := role }

/-! ## State -/

/-- `BalanceResponse`, and the header it was fetched with. -/
structure Balance where
  balanceCents : Option Int
  balanceDisplay : Option String
  fetchedWith : Option String
  deriving DecidableEq

/-- The wallet slice. -/
structure WalletSlice where
  balanceCents : Option Int := some 0
  balanceDisplay : Option String := some "$0.00"
  isLoaded : Bool := false
  fetchedWith : Option String := none
  deriving DecidableEq

/-- The query `['wallet', 'balance']`: its data, and who is fetching it. -/
structure BalanceQuery where
  data : Option Balance := none
  fetching : Option Nat := none
  deriving DecidableEq

/-- The tab. The access token of the auth slice is `accessToken` of the browser. -/
structure Tab extends Browser where
  user : Option AuthUser := none
  isAuthenticated : Bool := false
  isRefreshing : Bool := true
  wallet : WalletSlice := {}
  query : BalanceQuery := {}
  /-- The header of the last request of each thread. -/
  lastSent : Nat → Option String := fun _ => none

/-- The operations of the tab. -/
inductive TabOp where
  | web (o : WebOp)
  /-- `dispatch(setRefreshDone())`. -/
  | setRefreshDone
  /-- `dispatch(clearCredentials()); dispatch(clearBalance()); queryClient.clear()`: nothing runs
  in between. -/
  | clearSession
  /-- The query runs its `queryFn`. -/
  | startFetch
  /-- The `queryFn` answered. -/
  | setData (data : Body)
  /-- The `queryFn` threw, and is not tried again. -/
  | fetchFailed
  /-- `balanceQuery.data`. -/
  | getData
  /-- `dispatch(setBalance(balanceQuery.data))`. -/
  | setBalance (data : Balance)
  deriving DecidableEq

/-- What an operation answers. -/
abbrev TabOp.Res : TabOp → Type
  | .web o => o.Res
  | .getData => Option Balance
  | _ => Unit

/-- The signature of the tab. -/
abbrev TabSig : Sig WebErr := ⟨TabOp, TabOp.Res⟩

namespace Tab

/-- `setCredentials`. -/
def setCredentials (accessToken : String) (user : AuthUser) (s : Tab) : Tab :=
  { s with
    accessToken := some accessToken
    user := some user
    isAuthenticated := true
    isRefreshing := false }

/-- `clearCredentials`. -/
def clearCredentials (s : Tab) : Tab :=
  { s with
    accessToken := none
    user := none
    isAuthenticated := false
    isRefreshing := false }

/-- `setBalance`. -/
def setBalance (data : Balance) (s : Tab) : Tab :=
  { s with wallet := ⟨data.balanceCents, data.balanceDisplay, true, data.fetchedWith⟩ }

/-- **One operation.** A query that was cleared, or is fetched anew, ignores an older answer. -/
def exec (i : Nat) (ch : WebChoice) (o : TabOp) (s : Tab) : Option (Except WebErr o.Res × Tab) :=
  match o with
  | .web (.setCredentials accessToken) =>
    match decodeToken accessToken with
    | .error e => some (.error e, s)
    | .ok user => some (.ok (), s.setCredentials accessToken user)
  | .web .clearCredentials => some (.ok (), s.clearCredentials)
  | .web (.send url authorization) =>
    (s.toBrowser.exec ch (.send url authorization)).map fun x =>
      (x.1, { s with
        toBrowser := x.2
        lastSent := Function.update s.lastSent i authorization })
  | .web o => (s.toBrowser.exec ch o).map fun x => (x.1, { s with toBrowser := x.2 })
  | .setRefreshDone => some (.ok (), { s with isRefreshing := false })
  | .clearSession => some (.ok (), { s.clearCredentials with wallet := {}, query := {} })
  | .startFetch => some (.ok (), { s with query := { s.query with fetching := some i } })
  | .setData data =>
    if s.query.fetching = some i then
      some (.ok (), { s with
        query := ⟨some ⟨data.balanceCents, data.balanceDisplay, s.lastSent i⟩, none⟩ })
    else some (.ok (), s)
  | .fetchFailed =>
    if s.query.fetching = some i then
      some (.ok (), { s with query := { s.query with fetching := none } })
    else some (.ok (), s)
  | .getData => some (.ok s.query.data, s)
  | .setBalance data => some (.ok (), s.setBalance data)

end Tab

/-! ## Programs -/

namespace TabClient

/-- Await one operation. -/
def op (o : TabOp) : Prog TabSig o.Res := .perform (S := TabSig) o

/-- `apiClient`. -/
def api (url : Endpoint) (skipAuth : Bool) : Prog TabSig Body :=
  (ApiClient.request url skipAuth).expand fun o => op (.web o)

/-- `const user = decodeToken(accessToken); dispatch(setCredentials({ accessToken, user }))`. -/
def credentials (data : Body) : Prog TabSig Unit :=
  match data.accessToken with
  | none => .throw .TypeError
  | some accessToken => op (.web (.setCredentials accessToken))

/-- `login`. -/
def login (dto : LoginDto) : Prog TabSig Unit := do
  let data ← api (.login dto) true
  credentials data

/-- `logout`. -/
def logout : Prog TabSig Unit := do
  Prog.tryCatch (do
    let _ ← api .logout false
    return ()) fun _ => return ()
  op .clearSession

/-- The effect of `AuthBootstrap`. -/
def bootstrap : Prog TabSig Unit :=
  Prog.tryCatch (do
    let data ← api .refresh true
    credentials data) fun _ => op .setRefreshDone

/-- The option `retry` of the queries. -/
def retries : WebErr → Bool
  | .ApiError status _ => status ≠ 401 ∧ status ≠ 403
  | _ => true

/-- `walletApi.getBalance`, tried again this often. -/
def getBalance : Nat → Prog TabSig Body
  | 0 => api (.other false) false
  | n + 1 => (api (.other false) false).tryCatch fun e =>
    if retries e then getBalance n else .throw e

/-- A fetch of the balance query. -/
def fetchBalance : Prog TabSig Unit := do
  op .startFetch
  Prog.tryCatch (do
    let data ← getBalance 2
    op (.setData data)) fun _ => op .fetchFailed

/-- The effect of `useWallet`. -/
def syncBalance : Prog TabSig Unit := do
  match ← op .getData with
  | some data => op (.setBalance data)
  | none => return ()

end TabClient

/-- What the page calls. -/
inductive TabCall where
  | request (call : WebCall)
  | login (dto : LoginDto)
  | logout
  | bootstrap
  | fetchBalance
  | syncBalance
  deriving DecidableEq

/-- The program of a call. -/
def TabCall.body : TabCall → Prog TabSig Unit
  | .request call => do
    let _ ← TabClient.api call.url call.skipAuth
    return ()
  | .login dto => TabClient.login dto
  | .logout => TabClient.logout
  | .bootstrap => TabClient.bootstrap
  | .fetchBalance => TabClient.fetchBalance
  | .syncBalance => TabClient.syncBalance

/-- What happens around the page: a response arrives, or the unused query is collected. -/
inductive TabEnv where
  | arrive (n : Nat) (r : Response)
  | collect

/-- **The tab.** -/
abbrev tab : Machine TabSig where
  Call := TabCall
  Out := Unit
  State := Tab
  Choice := WebChoice
  Env := TabEnv
  body := TabCall.body
  start _ s := some s
  exec := Tab.exec
  env
    | .arrive n r => fun s => (s.toBrowser.arrive n r).map fun b => { s with toBrowser := b }
    | .collect => fun s => if s.query.fetching = none then some { s with query := {} } else none

/-! ## Small runs -/

/-- Thread `i` runs its next operations, which answer these choices. -/
def goes (i : Nat) (l : List WebChoice) : List (Event tab) := l.map fun ch => .run i (.ok ch)

/-- The response to request `n` arrives, with this body. -/
def answered (n status : Nat) (body : Body) (setCookie : SetCookie) : Event tab :=
  .env (.arrive n {
    status := status, contentType := some "application/json", body := some body,
    setCookie := setCookie })

/-- A token of user 7: its payload is `{"sub":"7","role":"USER"}`. -/
def token7 : String := "e30.eyJzdWIiOiI3Iiwicm9sZSI6IlVTRVIifQ.c2ln"

/-- A token of user 8. -/
def token8 : String := "e30.eyJzdWIiOiI4Iiwicm9sZSI6IlVTRVIifQ.c2ln"

/-- Thread `i` logs in as request `n`, and gets this token. -/
def signsInAs (i n : Nat) (accessToken : String) : List (Event tab) :=
  .spawn i (.login ⟨"c@d.e", "password34"⟩) :: goes i [{}, { id := n }] ++
  answered n 200 { accessToken := some accessToken } (.set "s") :: goes i [{}, {}]

/-- Request `n` of thread `i` is refused, and its refresh goes out as request `m`. -/
def refusedOnce (i n m : Nat) : List (Event tab) :=
  .spawn i (.request ⟨.other false, false⟩) :: goes i [{}, { id := n }] ++
  answered n 401 { message := some "Token expired" } .keep :: goes i [{}, { id := m }]

/-- The refresh that went out as request `m` is refused too. -/
def refusedTwice (i m : Nat) : List (Event tab) :=
  answered m 401 { message := some "Refresh token expired" } .keep :: goes i [{}, {}]

/-! ## What a step does -/

/-- The same credentials and wallet slice; the query holds nothing new. -/
structure Tab.SameView (s s' : Tab) : Prop where
  accessToken : s'.accessToken = s.accessToken
  user : s'.user = s.user
  isAuthenticated : s'.isAuthenticated = s.isAuthenticated
  wallet : s'.wallet = s.wallet
  data : ∀ d, s'.query.data = some d → s.query.data = some d

/-- The dispatches of `request`. -/
def WebOp.dispatches : WebOp → Bool
  | .setCredentials _ | .clearCredentials => true
  | _ => false

/-- The operations that begin or end a session. -/
def TabOp.bounds : TabOp → Bool
  | .web (.setCredentials _) | .clearSession => true
  | _ => false

/-- The operations that change the view. -/
inductive TabOp.Effect (i : Nat) (s : Tab) : TabOp → Tab → Prop
  | setCredentials {accessToken : String} {user : AuthUser}
    (h : decodeToken accessToken = .ok user) :
    TabOp.Effect i s (.web (.setCredentials accessToken)) (s.setCredentials accessToken user)
  | clearCredentials : TabOp.Effect i s (.web .clearCredentials) s.clearCredentials
  | clearSession :
    TabOp.Effect i s .clearSession { s.clearCredentials with wallet := {}, query := {} }
  | setData {data : Body} (h : s.query.fetching = some i) : TabOp.Effect i s (.setData data)
    { s with query := ⟨some ⟨data.balanceCents, data.balanceDisplay, s.lastSent i⟩, none⟩ }
  | setBalance (data : Balance) : TabOp.Effect i s (.setBalance data) (s.setBalance data)

/-- The view after an operation. -/
def TabOp.Views (i : Nat) (o : TabOp) (s s' : Tab) : Prop :=
  TabOp.Effect i s o s' ∨ s.SameView s' ∧ ∀ s'', ¬ TabOp.Effect i s o s''

/-- The step carries out `o`, an operation of thread `i` that changes the view. -/
def Does (c : Config tab) (e : Event tab) (i : Nat) (call : TabCall) (o : TabOp) : Prop :=
  (∃ m ch, e = .run i m ∧ m.choice? = some ch) ∧ c.waiting i = some (call, o) ∧
    ∃ s', TabOp.Effect i c.state o s'

theorem Does.unique {c : Config tab} {e : Event tab} {i j : Nat} {call call' : TabCall}
    {o o' : TabOp} (h : Does c e i call o) (h' : Does c e j call' o') :
    i = j ∧ call = call' ∧ o = o' := by
  obtain ⟨⟨m, ch, rfl, -⟩, hw, -⟩ := h
  obtain ⟨⟨m', ch', he, -⟩, hw', -⟩ := h'
  obtain ⟨rfl, -⟩ := Event.run.inj he
  obtain ⟨rfl, rfl⟩ := Prod.mk.inj (Option.some.inj (hw.symm.trans hw'))
  exact ⟨rfl, rfl, rfl⟩

namespace Tab

variable {i : Nat} {ch : WebChoice} {o : TabOp} {s s' : Tab}

theorem SameView.refl (s : Tab) : s.SameView s := ⟨rfl, rfl, rfl, rfl, fun _ h => h⟩

/-- The operations of a request, the dispatches aside, leave the view alone. -/
theorem exec_request {o : WebOp} (ho : o.dispatches = false) {r : Except WebErr o.Res}
    (h : s.exec i ch (.web o) = some (r, s')) :
    (∃ a, r = .ok a) ∧ s.SameView s' ∧ ∀ s'', ¬ TabOp.Effect i s (.web o) s'' := by
  cases o with
  | setCredentials t | clearCredentials => exact absurd ho (by simp [WebOp.dispatches])
  | getAccessToken =>
    obtain ⟨rfl, rfl⟩ := Prod.mk.inj (Option.some.inj h)
    refine ⟨⟨_, rfl⟩, ⟨rfl, rfl, rfl, rfl, fun _ h => h⟩, fun s'' he => ?_⟩
    cases he
  | send url authorization =>
    obtain ⟨⟨r, b⟩, hx, he⟩ := Option.map_eq_some_iff.mp h
    obtain ⟨rfl, rfl⟩ := Prod.mk.inj he
    simp only [Browser.exec] at hx
    split_ifs at hx
    obtain ⟨rfl, rfl⟩ := Prod.mk.inj (Option.some.inj hx)
    refine ⟨⟨_, rfl⟩, ⟨rfl, rfl, rfl, rfl, fun _ h => h⟩, fun s'' he => ?_⟩
    cases he
  | receive n =>
    obtain ⟨⟨r, b⟩, hx, he⟩ := Option.map_eq_some_iff.mp h
    obtain ⟨rfl, rfl⟩ := Prod.mk.inj he
    obtain ⟨x, -, hx⟩ := Option.map_eq_some_iff.mp hx
    obtain ⟨rfl, rfl⟩ := Prod.mk.inj hx
    refine ⟨⟨_, rfl⟩, ⟨rfl, rfl, rfl, rfl, fun _ h => h⟩, fun s'' he => ?_⟩
    cases he

/-- **What an operation did.** What throws is `decodeToken`, before anything is dispatched. -/
theorem exec_views {r : Except WebErr o.Res} (h : s.exec i ch o = some (r, s')) :
    o.Views i s s' ∧ (∀ e, r = .error e → s' = s ∧ ∀ s'', ¬ TabOp.Effect i s o s'') := by
  -- an operation that answered, and changed what the effect says or nothing
  have hok : ∀ {a : o.Res}, r = .ok a → o.Views i s s' →
      o.Views i s s' ∧ (∀ e, r = .error e → s' = s ∧ ∀ s'', ¬ TabOp.Effect i s o s'') := by
    rintro a rfl hv
    exact ⟨hv, fun e he => absurd he (by simp)⟩
  have hnone : ∀ {o' : TabOp}, o' = .setRefreshDone ∨ o' = .startFetch ∨ o' = .fetchFailed ∨
      o' = .getData → ∀ s'', ¬ TabOp.Effect i s o' s'' := by
    rintro o' (rfl | rfl | rfl | rfl) s'' he
    all_goals cases he
  cases o with
  | web o =>
    cases ho : o.dispatches with
    | false =>
      obtain ⟨⟨a, ha⟩, hsame, hno⟩ := exec_request ho h
      exact hok ha (.inr ⟨hsame, hno⟩)
    | true =>
      cases o with
      | setCredentials t =>
        simp only [exec] at h
        split at h
        · rename_i e' hd
          obtain ⟨rfl, rfl⟩ := Prod.mk.inj (Option.some.inj h)
          have hno : ∀ s'', ¬ TabOp.Effect i s (.web (.setCredentials t)) s'' := by
            rintro - ⟨hd'⟩
            exact absurd (hd.symm.trans hd') (by simp)
          exact ⟨.inr ⟨.refl s, hno⟩, fun _ _ => ⟨rfl, hno⟩⟩
        · rename_i user hd
          obtain ⟨hr, rfl⟩ := Prod.mk.inj (Option.some.inj h)
          exact hok hr.symm (.inl (.setCredentials hd))
      | clearCredentials =>
        obtain ⟨hr, rfl⟩ := Prod.mk.inj (Option.some.inj h)
        exact hok hr.symm (.inl .clearCredentials)
      | getAccessToken | send | receive => exact absurd ho (by simp [WebOp.dispatches])
  | clearSession =>
    obtain ⟨hr, rfl⟩ := Prod.mk.inj (Option.some.inj h)
    exact hok hr.symm (.inl .clearSession)
  | setBalance data =>
    obtain ⟨hr, rfl⟩ := Prod.mk.inj (Option.some.inj h)
    exact hok hr.symm (.inl (.setBalance data))
  | setData data =>
    simp only [exec] at h
    split_ifs at h with hf
    · obtain ⟨hr, rfl⟩ := Prod.mk.inj (Option.some.inj h)
      exact hok hr.symm (.inl (.setData hf))
    · obtain ⟨hr, rfl⟩ := Prod.mk.inj (Option.some.inj h)
      refine hok hr.symm (.inr ⟨.refl s, ?_⟩)
      rintro - ⟨hf'⟩
      contradiction
  | fetchFailed =>
    simp only [exec] at h
    split_ifs at h
    · obtain ⟨hr, rfl⟩ := Prod.mk.inj (Option.some.inj h)
      exact hok hr.symm (.inr ⟨⟨rfl, rfl, rfl, rfl, fun _ h => h⟩, hnone (by simp)⟩)
    · obtain ⟨hr, rfl⟩ := Prod.mk.inj (Option.some.inj h)
      exact hok hr.symm (.inr ⟨.refl s, hnone (by simp)⟩)
  | setRefreshDone | startFetch | getData =>
    obtain ⟨hr, rfl⟩ := Prod.mk.inj (Option.some.inj h)
    exact hok hr.symm (.inr ⟨⟨rfl, rfl, rfl, rfl, fun _ h => h⟩, hnone (by simp)⟩)

end Tab

/-- A session that was begun or ended has changed the view. -/
theorem Tab.bounds_effect {i : Nat} {ch : WebChoice} {o : TabOp} {s s' : Tab} {a : o.Res}
    (h : s.exec i ch o = some (.ok a, s')) (ho : o.bounds = true) :
    ∃ s'', TabOp.Effect i s o s'' := by
  cases o with
  | web o =>
    cases o with
    | setCredentials t =>
      simp only [exec] at h
      split at h
      · exact absurd (Prod.mk.inj (Option.some.inj h)).1 (by simp)
      · rename_i user hd
        exact ⟨_, .setCredentials hd⟩
    | _ => exact absurd ho (by simp [TabOp.bounds])
  | clearSession => exact ⟨_, .clearSession⟩
  | _ => exact absurd ho (by simp [TabOp.bounds])

/-- The arrival of an answer and the collection of the query leave the view. -/
theorem Tab.env_views {v : TabEnv} {s s' : Tab} (h : tab.env v s = some s') : s.SameView s' := by
  cases v with
  | arrive n r =>
    obtain ⟨b, hb, rfl⟩ := Option.map_eq_some_iff.mp h
    simp only [Browser.arrive] at hb
    split_ifs at hb
    obtain rfl := Option.some.inj hb
    exact ⟨rfl, rfl, rfl, rfl, fun _ h => h⟩
  | collect =>
    simp only [tab] at h
    split_ifs at h
    obtain rfl := Option.some.inj h
    exact ⟨rfl, rfl, rfl, rfl, fun _ h => absurd h (by simp)⟩

/-- **What an operation that runs does**: it changes the view and is taken, or the view stays and
no operation that changes it is carried out. -/
theorem Tab.answer_views {i : Nat} {m : Mode WebChoice WebErr} {o : TabOp} {s s' : Tab}
    {r : Except WebErr o.Res} {took : Bool} (h : tab.answer i m o s = some (r, s', took)) :
    (∃ ch, m.choice? = some ch ∧ took = true ∧ TabOp.Effect i s o s') ∨
      s.SameView s' ∧ (took = true → o.bounds = false) ∧
        ∀ ch s'', m.choice? = some ch → ¬ TabOp.Effect i s o s'' := by
  rcases Machine.answer_choice h with ⟨ch, r₀, hm, hexec, rfl⟩ | ⟨hm, rfl, rfl⟩
  · obtain ⟨hviews, herror⟩ := exec_views hexec
    cases r₀ with
    | ok a =>
      rcases hviews with heff | ⟨hsame, hno⟩
      · exact .inl ⟨ch, hm, rfl, heff⟩
      · refine .inr ⟨hsame, fun _ => ?_, fun _ s'' _ => hno s''⟩
        by_contra hb
        obtain ⟨s'', heff⟩ := bounds_effect hexec (by simpa using hb)
        exact hno s'' heff
    | error e =>
      obtain ⟨rfl, hno⟩ := herror e rfl
      exact .inr ⟨.refl _, fun h => absurd h (by simp [Except.toBool]), fun _ s'' _ => hno s''⟩
  · refine .inr ⟨.refl _, fun h => absurd h (by simp), fun ch _ hch => ?_⟩
    exact absurd (hm.symm.trans hch) (by simp)

/-- Only a step that runs an operation carries one out. -/
theorem not_does {c : Config tab} {e : Event tab} (he : ∀ i m, e ≠ .run i m) (i : Nat)
    (call : TabCall) (o : TabOp) : ¬ Does c e i call o := by
  rintro ⟨⟨m, ch, rfl, -⟩, -⟩
  exact he i m rfl

/-- **What a step does**: it carries out an operation that changes the view, or the view stays. -/
theorem tab_step_cases {c c' : Config tab} {e : Event tab} (h : tab.step c e = some c') :
    (∃ i call o, Does c e i call o ∧ c'.trace = ⟨i, call, o, true, c.state⟩ :: c.trace ∧
      TabOp.Effect i c.state o c'.state) ∨
    (∀ i call o, ¬ Does c e i call o) ∧ c.state.SameView c'.state ∧
      (c'.trace = c.trace ∨ ∃ x : Entry tab, c'.trace = x :: c.trace ∧
        (x.took = true → x.op.bounds = false)) := by
  rcases tab.step_cases h with ⟨i, call, s, rfl, -, hs, rfl⟩ |
    ⟨i, m, call, o, k, -, -, rfl, hi, -⟩ | ⟨i, call, o, k, rfl, -, rfl⟩ | ⟨v, s, rfl, hs, rfl⟩
  · obtain rfl := Option.some.inj hs
    exact .inr ⟨not_does (by simp), .refl _, .inl rfl⟩
  · obtain ⟨r, w, ⟨m', s, took, rfl, hx, rfl⟩, rfl⟩ := Machine.step_run h hi
    have hw : c.waiting i = some (call, o) := Config.Waits.waiting ⟨k, hi⟩
    rcases Tab.answer_views hx with ⟨ch, hm, rfl, heff⟩ | ⟨hsame, hbounds, hno⟩
    · exact .inl ⟨i, call, o, ⟨⟨m', ch, rfl, hm⟩, hw, s, heff⟩, rfl, heff⟩
    · refine .inr ⟨?_, hsame, .inr ⟨_, rfl, hbounds⟩⟩
      -- what the step carries out is this operation
      rintro j call' o' ⟨⟨m, ch, he, hm⟩, hw', s'', heff⟩
      obtain ⟨rfl, rfl⟩ := Event.run.inj he
      obtain ⟨-, rfl⟩ := Prod.mk.inj (Option.some.inj (hw.symm.trans hw'))
      exact hno ch s'' hm heff
  · exact .inr ⟨not_does (by simp), .refl _, .inl rfl⟩
  · exact .inr ⟨not_does (by simp), Tab.env_views hs, .inl rfl⟩

end BoltBet
