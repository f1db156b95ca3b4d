import BoltBet.Async.Alone
import BoltBet.Async.Knowledge
import BoltBet.Identity.Footprint
import BoltBet.Text.Utf8

/-!
# Which passwords are told apart?

`register` and `login` put the pepper before the password, and bcrypt reads the first 72 bytes of
what it is given. So of a password it reads what the pepper leaves of them: 8 characters after a
pepper of 64, and none after one of 72 or more.

* `Bcrypt`: what the package promises.
* `Hashed`: the account of an email has the hash of the password it was registered with.
* `passwords_distinct_iff`: two passwords are told apart exactly when they differ in the part bcrypt
  reads, whatever the pepper.
-/

namespace BoltBet

open Async Auth

/-- What bcrypt reads of its input. -/
def bcryptInput (data : String) : List UInt8 := (Utf8.encode data).take 72

/-- **The package bcrypt**: a hash matches the inputs with the same first 72 bytes. -/
def Bcrypt (P : Platform) : Prop :=
  ∀ rounds salt data data', P.bcryptCompare data' (P.bcryptHash rounds salt data) = true ↔
    bcryptInput data' = bcryptInput data

section

variable (T : Type) [Ring T] [LinearOrder T] [FloorRing T] (P : Platform)

/-- The account was registered: the insert of this `register` took effect. -/
def Registered (w : World (auth T P)) (dto : RegisterDto) : Prop :=
  ∃ x ∈ w.trace, x.took = true ∧ x.call = .register dto ∧ ∃ d, x.op = .userSave d

/-- **Two passwords are told apart**: in no run does a login with the second one return, on an
account that was registered with the first. -/
def PasswordsDistinct (password other : String) : Prop :=
  ∀ now (c : Config (auth T P)), (auth T P).Reachable ((auth T P).init (.empty now)) c →
    ∀ (dto : RegisterDto) (dto' : LoginDto) req j a, dto.password = password →
      dto'.password = other → dto'.email = dto.email → Registered T P c.toWorld dto →
      ¬ c.Returned j (.login dto' req) a

end

namespace Passwords

variable {T : Type} [Ring T] [LinearOrder T] [FloorRing T] {P : Platform}

/-- A user has the hash of a password. -/
def HasPassword (P : Platform) (u : User) (password : String) : Prop :=
  ∃ rounds salt, u.passwordHash = P.bcryptHash rounds salt (P.passwordPepper ++ password)

/-- The accounts: one for each email, with the password it was registered with. -/
structure Hashed (w : World (auth T P)) : Prop where
  emails : (w.state.users.map User.email).Nodup
  registered : ∀ dto, Registered T P w dto →
    ∃ u ∈ w.state.users, u.email = dto.email ∧ HasPassword P u dto.password

/-- A `register` inserts the email and the hash of the password it was called with. -/
def Known (P : Platform) (call : AuthCall) (o : AuthOp T) : Prop :=
  ∀ d, o = .userSave d → ∃ dto rounds salt, call = .register dto ∧ d.email = dto.email ∧
    d.passwordHash = P.bcryptHash rounds salt (P.passwordPepper ++ dto.password)

variable {i : Nat} {call : AuthCall} {o : AuthOp T} {w w' : World (auth T P)}
  {r : Except AuthErr o.Res}

/-- The users after an operation: as before, or one more, with an email nobody had. -/
theorem users_cases (hx : (auth T P).Exec i call o w r w') :
    ∃ took, w'.trace = ⟨i, call, o, took, w.state⟩ :: w.trace ∧
      ((w'.state.users = w.state.users ∧ (took = true → ∀ d, o ≠ .userSave d)) ∨
        ∃ id d, o = .userSave d ∧ (∀ u ∈ w.state.users, u.email ≠ d.email) ∧
          w'.state.users = w.state.users ++ [⟨id, d.email, d.passwordHash, d.role⟩]) := by
  obtain ⟨took, htr, ⟨rfl, ch, a, hs⟩ | ⟨rfl, hs⟩⟩ := auth_exec_cases hx
  · refine ⟨_, htr, ?_⟩
    by_cases ho : ∃ d, o = .userSave d
    · obtain ⟨d, rfl⟩ := ho
      simp only [AuthStore.exec] at hs
      split at hs
      · exact absurd (Prod.mk.inj (Option.some.inj hs)).1 (by simp)
      · rename_i hnew
        obtain ⟨-, hs⟩ := Prod.mk.inj (Option.some.inj hs)
        refine .inr ⟨ch.fresh, d, rfl, fun u hu he => hnew ?_, by rw [← hs]⟩
        exact List.any_eq_true.mpr ⟨u, hu, by simp [he]⟩
    · refine .inl ⟨?_, fun _ d hd => ho ⟨d, hd⟩⟩
      have he := AuthStore.exec_effect hs
      generalize w'.state = s' at he ⊢
      cases he with
      | userSave d => exact absurd ⟨d, rfl⟩ ho
      | _ => rfl
  · exact ⟨_, htr, .inl ⟨by rw [hs], fun h => absurd h (by simp)⟩⟩

/-- **One operation keeps the accounts**, and no account goes. -/
theorem hashed_exec (hx : (auth T P).Exec i call o w r w') (h : Hashed w) (hk : Known P call o) :
    Hashed w' ∧ w.state.users ⊆ w'.state.users := by
  obtain ⟨took, htr, ⟨hsame, hno⟩ | ⟨id, d, rfl, hnew, husers⟩⟩ := users_cases hx
  · refine ⟨⟨hsame ▸ h.emails, fun dto hreg => ?_⟩, hsame ▸ List.Subset.refl _⟩
    rw [hsame]
    refine h.registered dto ?_
    obtain ⟨x, hxt, htook, hcall, d, hop⟩ := hreg
    rcases List.mem_cons.mp (htr ▸ hxt) with rfl | hxt
    · exact absurd hop (hno htook d)
    · exact ⟨x, hxt, htook, hcall, d, hop⟩
  · refine ⟨⟨?_, fun dto hreg => ?_⟩, husers ▸ List.subset_append_left _ _⟩
    · rw [husers, List.map_append]
      refine List.nodup_append.mpr ⟨h.emails, List.nodup_singleton _, ?_⟩
      rintro e he e' he' rfl
      obtain ⟨u, hu, rfl⟩ := List.mem_map.mp he
      exact hnew u hu (List.mem_singleton.mp he')
    · obtain ⟨x, hxt, htook, hcall, d', hop⟩ := hreg
      rw [husers]
      rcases List.mem_cons.mp (htr ▸ hxt) with rfl | hxt
      · obtain ⟨dto', rounds, salt, hcall', hemail, hhash⟩ := hk d rfl
        obtain rfl := AuthCall.register.inj (hcall'.symm.trans hcall)
        exact ⟨_, List.mem_append_right _ (List.mem_singleton_self _), hemail, rounds, salt, hhash⟩
      · obtain ⟨u, hu, hrest⟩ := h.registered dto ⟨x, hxt, htook, hcall, d', hop⟩
        exact ⟨u, List.mem_append_left _ hu, hrest⟩

theorem hashed_same {s s' : AuthStore T} {l : List (Entry (auth T P))} (h : s'.users = s.users)
    (hinv : Hashed (P := P) ⟨s, l⟩) : Hashed (P := P) ⟨s', l⟩ :=
  ⟨h ▸ hinv.emails, fun dto hreg => h ▸ hinv.registered dto hreg⟩

omit [Ring T] [LinearOrder T] [FloorRing T] in
theorem start_users {call : AuthCall} {s s' : AuthStore T} (h : call.start s = some s') :
    s'.users = s.users := by
  cases call <;> obtain rfl := Option.some.inj h <;> rfl

omit [Ring T] [FloorRing T] in
theorem env_users {v : AuthEnv T} {s s' : AuthStore T} (h : v.step s = some s') :
    s'.users = s.users := by
  rcases auth_env_cases h with ⟨now, -, rfl⟩ | ⟨socket, rfl⟩
  · rfl
  · rfl

/-- Accounts have the password they were registered with. -/
def knowledge (T : Type) [Ring T] [LinearOrder T] [FloorRing T] (P : Platform) :
    Knowledge (auth T P) where
  inv := Hashed
  le w w' := w.state.users ⊆ w'.state.users
  K _ call o _ := Known P call o
  cond _ _ _ _ _ _ := True
  refl _ := List.Subset.refl _
  trans h h' := List.Subset.trans h h'
  exec hinv hK _ hx := by
    obtain ⟨h, hle⟩ := hashed_exec hx hinv hK
    exact ⟨h, hle, fun _ _ _ _ hj => hj⟩
  start h hinv := by
    refine ⟨hashed_same (start_users h) hinv, ?_, fun _ _ _ hj => hj⟩
    exact (start_users h).symm ▸ List.Subset.refl _
  env h hinv := by
    refine ⟨hashed_same (env_users h) hinv, ?_, fun _ _ _ hj => hj⟩
    exact (env_users h).symm ▸ List.Subset.refl _

/-! ## Every call -/

omit [Ring T] [LinearOrder T] [FloorRing T] in
theorem known_of_ne (h : ∀ d, o ≠ .userSave d) : Known P call o := fun d ho => absurd ho (h d)

/-- `register` inserts what it was called with. -/
theorem safe_register (dto : RegisterDto) (w : World (auth T P)) :
    (knowledge T P).rules.Safe i (.register dto) (fun _ _ => True)
      (AuthCall.body P (.register dto)) w := by
  show Rules.Safe _ i _ _ (_ <$> IdentityService.register P dto) w
  rw [map_eq_pure_bind]
  refine Rules.safe_seq (Q := fun _ _ => True) ?_ (fun _ _ _ => trivial) fun _ _ _ => trivial
  unfold IdentityService.register
  refine Rules.safe_seq (Q := fun _ _ => True)
    (Knowledge.safe_op' (known_of_ne (by simp)) fun _ _ _ _ => trivial)
    (fun found w₁ _ => ?_) fun _ _ _ => trivial
  cases found with
  | some user => trivial
  | none =>
    refine Rules.safe_seq (Q := fun r _ => ∀ hash, r = .ok hash → ∃ salt,
      hash = P.bcryptHash 12 salt (P.passwordPepper ++ dto.password))
      (Knowledge.safe_op' (known_of_ne (by simp)) fun _ _ hx _ hash hr => ?_)
      (fun hash w₂ hhash => ?_) fun _ _ _ => trivial
    · subst hr
      obtain ⟨ch, hs, -⟩ := auth_exec_ok hx
      exact ⟨ch.salt, (Except.ok.inj (Prod.mk.inj (Option.some.inj hs)).1).symm⟩
    · obtain ⟨salt, rfl⟩ := hhash hash rfl
      refine Rules.safe_seq (Q := fun _ _ => True)
        (Knowledge.safe_op' (fun d ho => ?_) fun _ _ _ _ => trivial)
        (fun _ _ _ => trivial) fun _ _ _ => trivial
      obtain rfl := AuthOp.userSave.inj ho
      exact ⟨dto, 12, salt, rfl, rfl, rfl⟩

/-- `login` returned: the account with the email has a hash that matches the password. -/
def LoggedIn (P : Platform) (dto : LoginDto) (w : World (auth T P)) : Prop :=
  ∃ u ∈ w.state.users, u.email = dto.email ∧
    P.bcryptCompare (P.passwordPepper ++ dto.password) u.passwordHash = true

theorem lasts_loggedIn (dto : LoginDto) : (knowledge T P).Lasts (LoggedIn P dto) := by
  rintro w w' hle ⟨u, hu, hrest⟩
  exact ⟨u, hle hu, hrest⟩

/-- `login` returns only when the comparison succeeds on the account it found. -/
theorem safe_login (dto : LoginDto) (req : Request) (w : World (auth T P)) :
    (knowledge T P).rules.Safe i (.login dto req) (fun r w' => ∀ a, r = .ok a → LoggedIn P dto w')
      (AuthCall.body P (.login dto req)) w := by
  show Rules.Safe _ i _ _ (_ <$> IdentityService.login P dto req) w
  rw [map_eq_pure_bind]
  refine Rules.safe_seq (Q := fun r w' => ∀ a, r = .ok a → LoggedIn P dto w') ?_
    (fun x w' h a _ => h x rfl) fun e _ _ => by simp
  unfold IdentityService.login
  -- the user that was found stays
  refine Rules.safe_seq (Q := fun r (w' : World (auth T P)) => ∀ u, r = .ok (some u) →
      u ∈ w'.state.users ∧ u.email = dto.email)
    (Knowledge.safe_op' (known_of_ne (by simp)) fun _ _ hx _ u hr => ?_)
    (fun found w₁ hfound => ?_) fun e _ _ => by simp
  · subst hr
    obtain ⟨ch, hs, -⟩ := auth_exec_ok hx
    obtain ⟨hu, hstate⟩ := Prod.mk.inj (Option.some.inj hs)
    have hu := Except.ok.inj hu
    exact ⟨hstate ▸ List.mem_of_find?_eq_some hu, by simpa using List.find?_some hu⟩
  · have hlasts : (knowledge T P).Lasts fun w' : World (auth T P) => ∀ u, found = some u →
        u ∈ w'.state.users ∧ u.email = dto.email :=
      fun hle h u hu => ⟨hle (h u hu).1, (h u hu).2⟩
    refine Rules.safe_seq (Q := fun r (w' : World (auth T P)) => (∀ u, found = some u →
        u ∈ w'.state.users ∧ u.email = dto.email) ∧ (r = .ok true →
          P.bcryptCompare (P.passwordPepper ++ dto.password)
            ((found.map User.passwordHash).getD P.dummyHash) = true))
      (Knowledge.safe_op hlasts (fun u hu => hfound u (congrArg _ hu)) (known_of_ne (by simp))
        fun _ _ _ hx _ hJ => ⟨hJ, fun hr => ?_⟩)
      (fun valid w₂ hvalid => ?_) fun e _ _ => by simp
    · subst hr
      obtain ⟨ch, hs, -⟩ := auth_exec_ok hx
      exact Except.ok.inj (Prod.mk.inj (Option.some.inj hs)).1
    · split
      · rename_i user
        obtain ⟨hmem, hemail⟩ := hvalid.1 user rfl
        have hlogged : LoggedIn P dto w₂ := ⟨user, hmem, hemail, hvalid.2 rfl⟩
        refine Rules.Safe.mono (fun r w' h a _ => h) ?_
        refine Knowledge.safe_of_all (P := fun o : AuthOp T => ∀ d, o ≠ .userSave d) ?_
          (fun o ho w' => known_of_ne ho) (lasts_loggedIn dto) hlogged
        refine Prog.All.bind (all_issueAccessToken (by simp) (by simp) user) fun _ => ?_
        refine Prog.All.bind (all_issueRefreshToken P ?_ ?_ user req none) fun _ => trivial
        · intro o ho d hd
          subst hd
          exact ho
        · intro o ho d hd
          subst hd
          cases ho
      · simp [Rules.Safe]

omit [Ring T] [LinearOrder T] [FloorRing T] in
/-- Only `register` inserts a user. -/
theorem footprint_userSave {call : AuthCall} {d : UserDraft}
    (h : AuthFootprint (T := T) call (.userSave d)) (hcall : ∀ dto, call ≠ .register dto) :
    False := by
  generalize ho : (AuthOp.userSave d : AuthOp T) = o at h
  cases h with
  | userSave dto d' => exact hcall dto rfl
  | reads _ _ hreads =>
    subst ho
    exact hreads
  | login dto req o h | refresh req o h =>
    subst ho
    cases h
  | emits tag p => cases p <;> exact absurd ho (by simp [NotificationPayload.emits])
  | _ => exact absurd ho (by simp)

/-- What a call shows when it ends. -/
def Shows (P : Platform) (call : AuthCall) (r : Except AuthErr AuthReply) (w : World (auth T P)) :
    Prop :=
  ∀ dto req a, call = .login dto req → r = .ok a → LoggedIn P dto w

theorem safe_body (call : AuthCall) (w : World (auth T P)) :
    (knowledge T P).rules.Safe i call (Shows P call) (call.body P) w := by
  cases call with
  | register dto => exact (safe_register dto w).mono fun _ _ _ _ _ _ h => absurd h (by simp)
  | login dto req =>
    refine (safe_login dto req w).mono fun r w' h dto' req' a hcall hr => ?_
    obtain ⟨rfl, rfl⟩ := AuthCall.login.inj hcall
    exact h a hr
  | _ =>
    refine Rules.Safe.mono (fun r w' _ _ _ _ hcall => absurd hcall (by simp)) <|
      Knowledge.safe_of_known (fun o ho w' => ?_) (auth_footprint P _) w
    exact known_of_ne fun d hd => footprint_userSave (hd ▸ ho) (by simp)

/-- **What a login that returned shows**: the account of the email has a hash that matches. -/
theorem reach {now : T} {c : Config (auth T P)}
    (hc : (auth T P).Reachable ((auth T P).init (.empty now)) c) :
    Hashed c.toWorld ∧
      ∀ j dto req a, c.Returned j (.login dto req) a → LoggedIn P dto c.toWorld := by
  have h0 : Hashed (P := P) ⟨AuthStore.empty now, []⟩ := by
    refine ⟨List.nodup_nil, fun dto hreg => ?_⟩
    obtain ⟨x, hx, -⟩ := hreg
    exact absurd hx (by simp)
  have hlasts : ∀ (i : Nat) call r, (knowledge T P).Lasts (Shows P call r) :=
    fun i call r w w' hle h dto req a hcall hr => lasts_loggedIn dto hle (h dto req a hcall hr)
  obtain ⟨hinv, -, hpost⟩ := (knowledge T P).reach (fun _ => trivial) (fun _ => Shows P)
    (fun _ _ _ _ _ _ _ _ _ _ => trivial) hlasts (fun i call w _ => safe_body call w) h0 hc
  exact ⟨hinv, fun j dto req a hret => hpost j _ a hret dto req a rfl rfl⟩

/-! ## A login with another password -/

/-- The state after `dto` was registered, and nothing else. -/
def registered (P : Platform) (now : T) (dto : RegisterDto) : AuthStore T :=
  { AuthStore.empty now with
    users := [⟨7, dto.email, P.bcryptHash 12 0 (P.passwordPepper ++ dto.password), .USER⟩] }

theorem register_run (now : T) (dto : RegisterDto) :
    ∃ c, (auth T P).Reachable ((auth T P).init (.empty now)) c ∧ Registered T P c.toWorld dto ∧
      c.state = registered P now dto ∧ c.threads 1 = none := by
  have hr : (auth T P).replay ((auth T P).init (.empty now))
      [.spawn 0 (.register dto), .run 0 (.ok {}), .run 0 (.ok {}), .run 0 (.ok { fresh := 7 })] =
      some _ := rfl
  refine ⟨_, .of_replay .init hr, ⟨_, List.mem_cons_self, rfl, rfl, _, rfl⟩, rfl, rfl⟩

/-- A login with a password that has the same hash returns. -/
theorem login_run (now : T) (dto : RegisterDto) (password : String)
    (hsame : P.bcryptCompare (P.passwordPepper ++ password)
      (P.bcryptHash 12 0 (P.passwordPepper ++ dto.password)) = true) :
    ∃ ms a s, (auth T P).Runs 1 (AuthCall.body P (.login ⟨dto.email, password⟩ {}))
      (registered P now dto) ms (some (.ok a)) s := by
  have hfind : (auth T P).answer 1 (.ok {}) (.userFindOne dto.email) (registered P now dto) =
      some (.ok (registered P now dto).users.head?, registered P now dto, true) := by
    simp [Machine.answer, AuthStore.exec, registered, Except.toBool]
  have hcompare : (auth T P).answer 1 (.ok {}) (.bcryptCompare (P.passwordPepper ++ password)
      (P.bcryptHash 12 0 (P.passwordPepper ++ dto.password))) (registered P now dto) =
      some (.ok true, registered P now dto, true) := by
    simp [Machine.answer, AuthStore.exec, hsame, Except.toBool]
  let rest : List (Mode AuthChoice AuthErr) :=
    [.ok { fresh := 20 }, .ok {}, .ok {}, .ok {}, .ok { fresh := 30 }, .ok {}, .ok { fresh := 40 }]
  exact ⟨.ok {} :: .ok {} :: rest, _, _, .await hfind (.await hcompare (.of_evaluate rfl))⟩

end Passwords

open Passwords

variable {T : Type} [Ring T] [LinearOrder T] [FloorRing T] {P : Platform}

/-- The bytes of a password that bcrypt reads after the pepper. -/
def Platform.bytesLeft (P : Platform) : Nat := 72 - (Utf8.encode P.passwordPepper).length

/-- A login with a password of which bcrypt reads the same returns. -/
theorem not_distinct_of_same (hb : Bcrypt P) (dto : RegisterDto) {other : String}
    (hsame : bcryptInput (P.passwordPepper ++ other) =
      bcryptInput (P.passwordPepper ++ dto.password)) :
    ¬ PasswordsDistinct T P dto.password other := by
  intro hdist
  obtain ⟨c, hc, hreg, hstate, hnone⟩ := register_run (P := P) (0 : T) dto
  obtain ⟨ms, a, s, hruns⟩ := login_run (T := T) 0 dto other ((hb 12 0 _ _).mpr hsame)
  let call : AuthCall := .login ⟨dto.email, other⟩ {}
  have hspawn : (auth T P).step c (.spawn 1 call) = some ⟨c.toWorld,
      Function.update c.threads 1 (some ⟨call, AuthCall.body P call, false⟩)⟩ := by
    simp only [Machine.step, hnone]
    rfl
  obtain ⟨c', p', hc', htr, -, hthread, hout⟩ := Machine.Runs.reach (hstate ▸ hruns)
    (.step _ hc trivial hspawn) (Function.update_self ..)
  obtain rfl := Prog.outcome_ok hout
  obtain ⟨x, hx, hrest⟩ := hreg
  exact hdist 0 c' hc' dto ⟨dto.email, other⟩ {} 1 a rfl rfl rfl ⟨x, htr.subset hx, hrest⟩ hthread

/-- **Two passwords are told apart exactly when they differ in the part that bcrypt reads after the
pepper.** -/
theorem passwords_distinct_iff (hb : Bcrypt P) (dto : RegisterDto) (other : String)
    (hp : Utf8.Ascii dto.password) (hq : Utf8.Ascii other) :
    PasswordsDistinct T P dto.password other ↔
      dto.password.toList.take P.bytesLeft ≠ other.toList.take P.bytesLeft := by
  have hinput : ∀ {p q : String}, Utf8.Ascii p → Utf8.Ascii q →
      (bcryptInput (P.passwordPepper ++ p) = bcryptInput (P.passwordPepper ++ q) ↔
        p.toList.take P.bytesLeft = q.toList.take P.bytesLeft) :=
    fun hp hq => Utf8.take_encode_iff hp hq
  constructor
  · exact fun hdist hsame => not_distinct_of_same hb dto ((hinput hp hq).mpr hsame).symm hdist
  · rintro hne now c hc dto' login req j a hp' rfl hemail hreg hret
    obtain ⟨hinv, hlogged⟩ := Passwords.reach hc
    obtain ⟨u, hu, hue, rounds, salt, hhash⟩ := hinv.registered dto' hreg
    obtain ⟨u', hu', hue', hcompare⟩ := hlogged j login req a hret
    -- emails are unique, so the login found the account that was registered
    obtain rfl := List.inj_on_of_nodup_map hinv.emails hu hu' (hue.trans (hue'.trans hemail).symm)
    rw [hhash, hb, hp'] at hcompare
    exact hne ((hinput hp hq).mp hcompare.symm)

/-! ## A pepper of 64 characters -/

/-- Libraries for examples, with a pepper of 64 hexadecimal digits and a hash that is the part
bcrypt reads. -/
def peppered : Platform :=
  { sample with
    bcryptHash := fun _ _ data => String.ofList ((bcryptInput data).map fun b => Char.ofNat b.toNat)
    bcryptCompare := fun data hash =>
      String.ofList ((bcryptInput data).map fun b => Char.ofNat b.toNat) = hash
    passwordPepper := "0123456789abcdef0123456789abcdef0123456789abcdef0123456789abcdef" }

theorem bcrypt_peppered : Bcrypt peppered := by
  have hinj : Function.Injective fun b : UInt8 => Char.ofNat b.toNat := by
    intro a b h
    have hof : ∀ c : UInt8, (Char.ofNat c.toNat).toNat = c.toNat := by
      intro c
      have hvalid : c.toNat.isValidChar := .inl (lt_trans c.toNat_lt (by decide))
      unfold Char.ofNat
      rw [dif_pos hvalid]
      rfl
    exact UInt8.toNat.inj ((hof a).symm.trans ((congrArg Char.toNat h).trans (hof b)))
  intro rounds salt data data'
  simp only [peppered, decide_eq_true_eq]
  exact ⟨fun h => List.map_injective_iff.mpr hinj (String.ofList_injective h), fun h => by rw [h]⟩

/-- An account with the password "password12" takes "password99". -/
theorem not_passwords_distinct : ¬ PasswordsDistinct ℤ peppered "password12" "password99" :=
  not_distinct_of_same bcrypt_peppered ⟨"a@b.c", "password12", by decide, by decide⟩ (by decide)

/-- "password12" and "passworD12" differ in the first 8 characters. -/
theorem passwords_distinct_8 : PasswordsDistinct ℤ peppered "password12" "passworD12" :=
  (passwords_distinct_iff bcrypt_peppered ⟨"a@b.c", "password12", by decide, by decide⟩
    "passworD12" (by decide) (by decide)).mpr (by decide)

end BoltBet
