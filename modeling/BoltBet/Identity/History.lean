import BoltBet.Async.History
import BoltBet.Identity.Exchange

/-!
# What the auth programs do after what they have seen

`Grounds P call l o`: what the history `l` of a call holds when it comes to the operation `o`.
`Ends P l`: what it holds when the call answers. Both are read off the programs, one call at a
time, with no other thread in sight (`auth_along`); `Machine.along_thread` turns them into facts
about every run.
-/

namespace BoltBet

open Async Auth

variable {T : Type} {l l' : List (Seen (AuthSig T))}

/-- Where the family of a new refresh token is from: it was drawn, or it is that of a token that
was found and saved as used. -/
def Origin (l : List (Seen (AuthSig T))) (f : Uuid) : Prop :=
  Saw l .randomUUID f ∨ ∃ text t u saved, Saw l (.tokenFindOne text) (some (t, u)) ∧
    Saw l (.tokenSave { t with used := true }) saved ∧ t.familyId = f

/-- No token was inserted. -/
def NoTokenInsert (l : List (Seen (AuthSig T))) : Prop := ∀ x ∈ l, ∀ d, x.op ≠ .tokenInsert d

/-- A token was verified, with this payload. -/
def Verified (l : List (Seen (AuthSig T))) (token : String) (p : JwtPayload) : Prop :=
  Saw l (.verifyAsync token) p

theorem Origin.later {f : Uuid} (h : Origin l f) (hl : l <:+ l') : Origin l' f := by
  rcases h with h | ⟨text, t, u, saved, h, hs, hf⟩
  · exact .inl (h.later hl)
  · exact .inr ⟨text, t, u, saved, h.later hl, hs.later hl, hf⟩

theorem NoTokenInsert.cons (h : NoTokenInsert l) {x : Seen (AuthSig T)}
    (hx : ∀ d, x.op ≠ .tokenInsert d) : NoTokenInsert (x :: l) := by
  intro y hy
  rcases List.mem_cons.mp hy with rfl | hy
  · exact hx
  · exact h y hy

variable [Ring T] [LinearOrder T] [FloorRing T] (P : Platform)

/-- **What a call has seen when it comes to an operation.** -/
def Grounds (call : AuthCall) (l : List (Seen (AuthSig T))) : AuthOp T → Prop
  | .tokenFindOne text => l = [] ∧ ∃ req, call = .refresh req ∧ req.presents P = P.uuidOf text
  | .tokenSave e => ∃ text t u, Saw l (.tokenFindOne text) (some (t, u)) ∧ t.used = false ∧
      t.revoked = false ∧ e = { t with used := true }
  | .familyRevoke f => ∃ text t u, Saw l (.tokenFindOne text) (some (t, u)) ∧ t.used = true ∧
      f = t.familyId
  | .tokenInsert d => NoTokenInsert l ∧ Origin l d.familyId
  | .signAsync claims => Saw l .randomUUID claims.jti ∧
      ∀ x ∈ l, ∀ claims', x.op ≠ .signAsync claims'
  | .blacklistSet jti ttl => ∃ token p now, Saw l (.verifyAsync token) p ∧ Saw l .clock now ∧
      jti = p.jti ∧ ttl = p.exp - ⌊now⌋ ∧ 0 < ttl
  | .join k u => ∃ token p, call = .connection k (some token) ∧ Saw l (.verifyAsync token) p ∧
      Saw l (.blacklistGet p.jti) none ∧ u = p.sub
  | _ => True

/-- **What a call has seen when it answers.** -/
def Ends (l : List (Seen (AuthSig T))) : Except AuthErr AuthReply → Prop
  | .ok (.tokens _ cookie) => ∃ d row secret, Saw l (.tokenInsert d) row ∧
      cookie = refreshCookie (P.uuidText row.id) secret ∧ Origin l d.familyId
  | .ok (.loggedOut p) => ∃ token now, Saw l (.verifyAsync token) p ∧ Saw l .clock now ∧
      (⌊now⌋ < p.exp → Saw l (.blacklistSet p.jti (p.exp - ⌊now⌋)) ())
  | _ => True

variable {P} {call : AuthCall} {α : Type}

/-- One operation, and then the rest. -/
theorem along_bind {Q : List (Seen (AuthSig T)) → Except AuthErr α → Prop} {o : AuthOp T}
    {f : o.Res → Prog (AuthSig T) α} (hG : Grounds P call l o)
    (hok : ∀ a, (f a).Along (Grounds P call) Q (⟨o, .ok a⟩ :: l))
    (herr : ∀ e, Q (⟨o, .error e⟩ :: l) (.error e)) :
    (op o >>= f).Along (Grounds P call) Q l := Prog.along_perform_bind hG hok herr

omit [Ring T] [LinearOrder T] [FloorRing T] in
/-- After a program that inserts nothing. -/
theorem NoTokenInsert.after {p : Prog (AuthSig T) α} {G : List (Seen (AuthSig T)) → AuthOp T → Prop}
    {Q : List (Seen (AuthSig T)) → Except AuthErr α → Prop} (h : NoTokenInsert l)
    (hp : p.Along G Q l) (hall : p.All fun o : AuthOp T => ∀ d, o ≠ .tokenInsert d) :
    p.Along G (fun l' r => Q l' r ∧ NoTokenInsert l') l := by
  refine (hp.recall hall).mono ?_
  rintro l' r ⟨hQ, -, hmem⟩
  refine ⟨hQ, fun x hx => ?_⟩
  rcases hmem x hx with hx | hx
  · exact h x hx
  · exact hx

/-- One operation. -/
theorem along_op {o : AuthOp T} {Q : List (Seen (AuthSig T)) → Except AuthErr o.Res → Prop}
    (hG : Grounds P call l o) (hQ : ∀ r, Q (⟨o, r⟩ :: l) r) :
    (op o).Along (Grounds P call) Q l := Prog.along_perform hG hQ

/-! ## Issuing tokens -/

theorem along_issueAccessToken (user : User)
    (hl : ∀ x ∈ l, ∀ claims, x.op ≠ .signAsync claims) :
    (IdentityService.issueAccessToken user : Prog (AuthSig T) String).Along (Grounds P call)
      (fun l' _ => l <:+ l') l := by
  refine along_bind trivial (fun jti => ?_) fun e => List.suffix_cons _ _
  refine along_op ⟨saw_head, fun x hx => ?_⟩ fun r =>
    (List.suffix_cons _ _).trans (List.suffix_cons _ _)
  rcases List.mem_cons.mp hx with rfl | hx
  · simp
  · exact hl x hx

theorem along_familyOf (f : Option Uuid) (hf : ∀ f' ∈ f, Origin l f') (hno : NoTokenInsert l) :
    (IdentityService.familyOf f : Prog (AuthSig T) Uuid).Along (Grounds P call)
      (fun l' r => NoTokenInsert l' ∧ ∀ f', r = .ok f' → Origin l' f') l := by
  cases f with
  | some f =>
    refine ⟨hno, fun f' hf' => ?_⟩
    exact hf f' (congrArg some (Except.ok.inj hf'))
  | none =>
    refine along_op trivial fun r => ⟨hno.cons (by simp), fun f' hf' => ?_⟩
    subst hf'
    exact .inl saw_head

/-- The cookie carries the id of a token that was inserted into the family. -/
theorem along_issueRefreshToken (user : User) (req : Request) (f : Option Uuid)
    (hf : ∀ f' ∈ f, Origin l f') (hno : NoTokenInsert l) :
    (IdentityService.issueRefreshToken P user req f : Prog (AuthSig T) String).Along
      (Grounds P call) (fun l' r => ∀ cookie, r = .ok cookie → ∃ d row secret,
        Saw l' (.tokenInsert d) row ∧ cookie = refreshCookie (P.uuidText row.id) secret ∧
        Origin l' d.familyId) l := by
  unfold IdentityService.issueRefreshToken
  refine along_bind trivial (fun secret => ?_) (by simp)
  refine along_bind trivial (fun hash => ?_) (by simp)
  refine Prog.Along.bind (along_familyOf f (fun f' hf' =>
    ((hf f' hf').later (List.suffix_cons _ _)).later (List.suffix_cons _ _))
    ((hno.cons (by simp)).cons (by simp))) (fun f' l₁ h₁ => ?_) (by simp)
  have hf₁ : Origin l₁ f' := h₁.2 f' rfl
  refine along_bind trivial (fun now => ?_) (by simp)
  refine along_bind ⟨h₁.1.cons (by simp), hf₁.later (List.suffix_cons _ _)⟩ (fun saved => ?_)
    (by simp)
  intro cookie hcookie
  refine ⟨_, saved, secret, saw_head, (Except.ok.inj hcookie).symm, ?_⟩
  exact (hf₁.later (List.suffix_cons _ _)).later (List.suffix_cons _ _)

/-! ## The calls -/

theorem along_login (dto : LoginDto) (req : Request) :
    (AuthCall.body P (.login dto req) : Prog (AuthSig T) _).Along (Grounds P call)
      (Ends P) [] := by
  refine Prog.Along.map (Q := fun l r => ∀ x, r = .ok x → Ends P l (.ok (.tokens x.1 x.2))) ?_
    (fun x l' h => h x rfl) (fun _ _ _ => trivial)
  refine along_bind trivial (fun found => ?_) (by simp)
  refine along_bind trivial (fun valid => ?_) (by simp)
  split
  · refine Prog.Along.bind (NoTokenInsert.after (by simp [NoTokenInsert])
      (along_issueAccessToken _ (by simp)) (all_issueAccessToken (by simp) (by simp) _))
      (fun token l₁ h₁ => ?_) (by simp)
    refine Prog.Along.bind (along_issueRefreshToken _ req none (by simp) h₁.2)
      (fun cookie l₂ h₂ => ?_) (by simp)
    intro x hx
    obtain rfl := Except.ok.inj hx
    exact h₂ cookie rfl
  · simp [Prog.Along]

theorem along_rotate (req : Request) {text : String} {stored : RefreshToken T} {user : Option User}
    (hsaw : Saw l (.tokenFindOne text) (some (stored, user)))
    (hsign : ∀ x ∈ l, ∀ claims, x.op ≠ .signAsync claims) (hno : NoTokenInsert l)
    (hused : stored.used = false) (hrevoked : stored.revoked = false) :
    (IdentityService.rotate P req stored user).Along (Grounds P call)
      (fun l r => ∀ x, r = .ok x → Ends P l (.ok (.tokens x.1 x.2))) l := by
  unfold IdentityService.rotate
  refine along_bind ⟨text, stored, user, hsaw, hused, hrevoked, rfl⟩ (fun saved => ?_) (by simp)
  split
  · simp [Prog.Along]
  · rename_i user
    refine Prog.Along.bind (NoTokenInsert.after (hno.cons (by simp))
      (along_issueAccessToken _ fun x hx => ?_) (all_issueAccessToken (by simp) (by simp) _))
      (fun token l₁ h₁ => ?_) (by simp)
    · rcases List.mem_cons.mp hx with rfl | hx
      · simp
      · exact hsign x hx
    · have hsaw₁ := hsaw.later ((List.suffix_cons _ _).trans h₁.1)
      have hsaved₁ := (saw_head (l := l)).later h₁.1
      refine Prog.Along.bind (along_issueRefreshToken user req (some stored.familyId)
        (fun f hf => .inr ⟨text, stored, some user, saved, hsaw₁, hsaved₁, Option.some.inj hf⟩)
        h₁.2) (fun cookie l₂ h₂ => ?_) (by simp)
      intro x hx
      obtain rfl := Except.ok.inj hx
      exact h₂ cookie rfl

theorem along_refresh (req : Request) :
    (AuthCall.body P (.refresh req) : Prog (AuthSig T) _).Along (Grounds P (.refresh req))
      (Ends P) [] := by
  refine Prog.Along.map (Q := fun l r => ∀ x, r = .ok x → Ends P l (.ok (.tokens x.1 x.2))) ?_
    (fun x l' h => h x rfl) (fun _ _ _ => trivial)
  unfold IdentityService.refresh
  split
  · simp [Prog.Along]
  · simp [Prog.Along]
  · rename_i rawCookie _ hcookie
    split
    · simp [Prog.Along]
    · rename_i tokenId rawSecret hparts
      refine along_bind ⟨rfl, req, rfl, by simp [Request.presents, hcookie, hparts]⟩
        (fun found => ?_) (by simp)
      split
      · simp [Prog.Along]
      · rename_i stored user
        unfold IdentityService.exchange
        split
        · simp [Prog.Along]
        · rename_i hrevoked
          split
          · rename_i hused
            refine along_bind ⟨tokenId, stored, user, saw_head, hused, rfl⟩ (fun _ => ?_) (by simp)
            simp [Prog.Along]
          · rename_i hused
            refine along_bind trivial (fun now => ?_) (by simp)
            split
            · simp [Prog.Along]
            · refine along_bind trivial (fun found => ?_) (by simp)
              split
              · exact along_rotate req saw_head.cons.cons (by simp) (by simp [NoTokenInsert])
                  (by simpa using hused) (by simpa using hrevoked)
              · simp [Prog.Along]

/-- The guard attaches what it verified. -/
theorem along_canActivate (isPublic : Bool) (req : Request) :
    (JwtAuthGuard.canActivate isPublic req : Prog (AuthSig T) _).Along (Grounds P call)
      (fun l r => ∀ p, r = .ok (some p) → ∃ token, Verified l token p) [] := by
  unfold JwtAuthGuard.canActivate
  split
  · intro p hp
    exact absurd (Except.ok.inj hp) (by simp)
  · split
    · simp [Prog.Along]
    · simp [Prog.Along]
    · rename_i token _ _
      refine Prog.Along.bind (Q := fun l r => ∀ p, r = .ok p → ∃ token, Verified l token p)
        (.tryCatch (Q := fun l r => ∀ p, r = .ok p → ∃ token, Verified l token p)
          (along_op trivial ?_) (fun p l' h => h) fun e l' _ => by simp [Prog.Along])
        (fun payload l₁ h₁ => ?_) (by simp)
      · rintro r p rfl
        exact ⟨token, saw_head⟩
      · obtain ⟨token, hsaw⟩ := h₁ payload rfl
        refine Prog.Along.map (Q := fun l r => ∀ p, r = .ok p → ∃ token, Verified l token p) ?_
          (fun a l' h p hp => h p (by simpa using hp)) (by simp)
        refine along_bind trivial (fun found => ?_) (by simp)
        cases found with
        | some _ => simp [Prog.Along]
        | none =>
          rintro p ⟨⟩
          exact ⟨token, hsaw.cons⟩

theorem along_logout (req : Request) :
    (AuthCall.body P (.logout req) : Prog (AuthSig T) _).Along (Grounds P (.logout req))
      (Ends P) [] := by
  refine Prog.Along.map (Q := fun l r => ∀ p, r = .ok p → Ends P l (.ok (.loggedOut p))) ?_
    (fun p l' h => h p rfl) (fun _ _ _ => trivial)
  unfold IdentityController.logout
  refine Prog.Along.bind (along_canActivate false req) (fun user l₁ h₁ => ?_) (by simp)
  cases user with
  | none => simp [Prog.Along]
  | some user =>
    obtain ⟨token, hsaw⟩ := h₁ user rfl
    refine Prog.Along.bind (Q := fun l r => r = .ok () → Ends P l (.ok (.loggedOut user))) ?_
      (fun _ l₂ h₂ => ?_) (by simp)
    · refine Prog.Along.bind (Q := fun l _ => l₁ <:+ l) ?_ (fun _ l₂ h₂ => ?_) (by simp)
      · unfold IdentityService.revokeCookie
        split
        · exact List.suffix_rfl
        · split
          · exact List.suffix_rfl
          · exact along_op trivial fun r => List.suffix_cons _ _
      · have hsaw₂ := hsaw.later h₂
        refine along_bind trivial (fun now => ?_) (by simp)
        by_cases httl : 0 < user.exp - ⌊now⌋
        · simp only [if_pos httl]
          refine along_op ⟨token, user, now, hsaw₂.cons, saw_head, rfl, rfl, httl⟩ fun r hr => ?_
          subst hr
          exact ⟨token, now, hsaw₂.cons.cons, saw_head.cons, fun _ => saw_head⟩
        · simp only [if_neg httl]
          exact fun _ => ⟨token, now, hsaw₂.cons, saw_head, fun h => absurd h (by omega)⟩
    · rintro p ⟨⟩
      exact h₂ rfl

theorem along_connection (socket : Nat) (token : Option String) :
    (AuthCall.body P (.connection socket token) : Prog (AuthSig T) _).Along
      (Grounds P (.connection socket token)) (Ends P) [] := by
  refine Prog.Along.map (Q := fun _ _ => True) ?_ (fun _ _ _ => trivial) (fun _ _ _ => trivial)
  unfold RealtimeGateway.handleConnection
  split
  · exact along_op trivial fun _ => trivial
  · exact along_op trivial fun _ => trivial
  · rename_i token _
    refine Prog.Along.bind (Q := fun l r => ∀ p, r = .ok (some p) → Verified l token p)
      (.tryCatch (Q := fun l r => ∀ p, r = .ok (some p) → Verified l token p)
        (.map (Q := fun l r => ∀ p, r = .ok p → Verified l token p)
          (along_op trivial ?_) (fun p l' h p' hp => ?_) (by simp))
        (fun p l' h => h) (fun e l' _ => by simp [Prog.Along]))
      (fun verified l₁ h₁ => ?_) (fun _ _ _ => trivial)
    · rintro r p rfl
      exact saw_head
    · obtain rfl := Option.some.inj (Except.ok.inj hp)
      exact h p rfl
    · split
      · exact along_op trivial fun _ => trivial
      · rename_i payload
        have hsaw := h₁ payload rfl
        refine along_bind trivial (fun found => ?_) (fun _ => trivial)
        split
        · exact along_op trivial fun _ => trivial
        · exact along_op ⟨token, payload, rfl, hsaw.cons, saw_head, rfl⟩ fun _ => trivial

/-- A call whose end needs no grounds. -/
theorem along_quiet {p : Prog (AuthSig T) α} {f : α → AuthReply}
    (hf : ∀ (l : List (Seen (AuthSig T))) a, Ends P l (.ok (f a)))
    (hp : p.Along (Grounds P call) (fun _ _ => True) []) :
    (f <$> p).Along (Grounds P call) (Ends P) [] :=
  hp.map (fun a l' _ => hf l' a) fun _ _ _ => trivial

theorem along_register (dto : RegisterDto) :
    (AuthCall.body P (.register dto) : Prog (AuthSig T) _).Along (Grounds P call) (Ends P) [] := by
  refine along_quiet (fun _ _ => trivial) ?_
  refine along_bind trivial (fun found => ?_) (fun _ => trivial)
  cases found with
  | some u => trivial
  | none =>
    refine along_bind trivial (fun hash => ?_) (fun _ => trivial)
    exact along_bind trivial (fun _ => trivial) (fun _ => trivial)

theorem along_notification (tag : Nat) (payload : NotificationPayload) :
    (AuthCall.body P (.notification tag payload) : Prog (AuthSig T) _).Along (Grounds P call)
      (Ends P) [] := by
  refine along_quiet (fun _ _ => trivial) ?_
  refine Prog.Along.tryCatch (Q := fun _ _ => True) ?_ (fun _ _ _ => trivial)
    fun _ _ _ => along_op trivial fun _ => trivial
  refine Prog.Along.bind (Q := fun _ _ => True) ?_
    (fun _ _ _ => along_op trivial fun _ => trivial) (fun _ _ _ => trivial)
  cases payload <;> exact along_op trivial fun _ => trivial

/-- **Every auth call comes to its operations on these grounds, and ends so.** -/
theorem auth_along (call : AuthCall) :
    (call.body P : Prog (AuthSig T) _).Along (Grounds P call) (Ends P) [] := by
  cases call with
  | register dto => exact along_register dto
  | login dto req => exact along_login dto req
  | refresh req => exact along_refresh req
  | logout req => exact along_logout req
  | route isPublic req =>
    exact along_quiet (fun _ _ => trivial)
      ((along_canActivate isPublic req).mono fun _ _ _ => trivial)
  | connection socket token => exact along_connection socket token
  | notification tag payload => exact along_notification tag payload

end BoltBet
