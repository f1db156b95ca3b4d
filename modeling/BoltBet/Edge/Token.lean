import BoltBet.Async.Alone
import BoltBet.Edge.Cache
import BoltBet.Identity.Service
import BoltBet.Text.Utf8

/-!
# The token of a request, at the gateway and at the service

The gateway takes the claim `jti` from an unverified token, with a Lua pattern, a `gmatch` and
`cjson`. The identity service cuts the header at its blanks and verifies a token of three segments.

* **`same_jti`**: where the service reads a claim, the gateway refuses the token as malformed or
  reads that claim, and every key it looks at or writes is made of it.
* `PayloadShape`: the payloads that the script can take apart; a `null` is none of them.
* **`check_answered_iff`**: a header is answered by a pass or a 401, in every run, exactly when its
  payload has this shape.
-/

namespace BoltBet

open Async

namespace EdgeAuth

variable {T : Type} {N : Openresty T}

/-! ## The two readings of a header -/

/-- A header as JavaScript reads it: one character for each byte. -/
def latin1 (bytes : LuaString) : String := String.ofList (bytes.map fun b => Char.ofNat b.toNat)

/-- The alphabet of base64url. -/
def isBase64url (b : UInt8) : Bool :=
  48 ≤ b ∧ b ≤ 57 ∨ 65 ≤ b ∧ b ≤ 90 ∨ 97 ≤ b ∧ b ≤ 122 ∨ b = 45 ∨ b = 95

/-- A segment of a token. -/
def Segment (s : LuaString) : Prop := s ≠ [] ∧ ∀ b ∈ s, isBase64url b = true

/-- How the service reads the second segment of a token. -/
structure PayloadReader where
  /-- The bytes of a segment. -/
  decode : LuaString → Option LuaString
  /-- The claim `jti` of a JSON object, where it is a text. -/
  jti : LuaString → Option String

/-- A segment in the standard alphabet, padded. -/
def padded (s : LuaString) : LuaString :=
  (s.map fun b => if b = 45 then 43 else if b = 95 then 47 else b) ++
    match s.length % 4 with
    | 2 => lua "=="
    | 3 => lua "="
    | _ => []

/-- **The decoders agree**: what both of them decode, they decode to the same. -/
structure DecodersAgree (N : Openresty T) (D : PayloadReader) : Prop where
  base64 : ∀ {s b b'}, Segment s → D.decode s = some b → N.decodeBase64 (padded s) = some b' →
    b' = b
  json : ∀ {b j v}, D.jti b = some j → N.cjsonDecode b = .ok v →
    ∃ get, v = .table get ∧ get (lua "jti") = .string (Utf8.encode j)

theorem base64urlDecode_eq (s : LuaString) :
    base64urlDecode N s = N.decodeBase64 (padded s) := by
  have hmap : (s.map fun b => if b = 45 then 43 else b).map (fun b => if b = 95 then 47 else b) =
      s.map fun b => if b = 45 then 43 else if b = 95 then 47 else b := by
    rw [List.map_map]
    refine List.map_congr_left fun b _ => ?_
    by_cases hb : b = 45 <;> simp [hb]
  unfold base64urlDecode padded
  simp only [hmap, List.length_map]
  by_cases h2 : s.length % 4 = 2
  · simp [h2]
  · by_cases h3 : s.length % 4 = 3
    · simp [h3]
    · have hnone : ∀ n, n ≠ 2 → n ≠ 3 → (match n with
          | 2 => lua "=="
          | 3 => lua "="
          | _ => []) = [] := by
        intro n h2 h3
        split <;> first | rfl | exact absurd rfl ‹_›
      rw [if_neg h2, if_neg h3, hnone _ h2 h3, List.append_nil]

theorem latin1_char_inj {b b' : UInt8} (h : Char.ofNat b.toNat = Char.ofNat b'.toNat) : b = b' := by
  have hnat : ∀ b : UInt8, (Char.ofNat b.toNat).toNat = b.toNat := by
    intro b
    have hb : b.toNat.isValidChar := .inl (b.toNat_lt.trans (by decide))
    unfold Char.ofNat
    rw [dif_pos hb]
    rfl
  rw [← UInt8.toNat_inj, ← hnat b, h, hnat b']

theorem latin1_inj {l l' : LuaString} (h : latin1 l = latin1 l') : l = l' := by
  unfold latin1 at h
  exact List.map_injective_iff.mpr (fun _ _ => latin1_char_inj) (String.ofList_injective h)

theorem latin1_char_blank {b : UInt8} : Char.ofNat b.toNat = ' ' ↔ b = 32 := by
  constructor
  · intro h
    exact latin1_char_inj (show Char.ofNat b.toNat = Char.ofNat (32 : UInt8).toNat from h)
  · rintro rfl
    rfl

/-- What the service takes for the token: the header is the scheme, a blank, the token, and nothing
or a blank after it. -/
theorem extractToken_latin1 {header token : LuaString}
    (h : JwtAuthGuard.extractToken (some (latin1 header)) = some (latin1 token)) :
    ∃ rest, header = lua "Bearer" ++ 32 :: (token ++ rest) ∧ ∀ b ∈ rest.head?, b = 32 := by
  have hpred : (fun c : Char => decide (c ≠ ' ')) ∘ (fun b : UInt8 => Char.ofNat b.toNat) =
      fun b => decide (b ≠ 32) := by
    funext b
    simp only [Function.comp, ne_eq, latin1_char_blank]
  simp only [JwtAuthGuard.extractToken, Option.map_some, latin1, String.toList_ofList,
    List.span_eq_takeWhile_dropWhile, List.takeWhile_map, List.dropWhile_map, hpred] at h
  have hcut := List.takeWhile_append_dropWhile (p := fun b : UInt8 => decide (b ≠ 32)) (l := header)
  have hhead := List.head?_dropWhile_not (fun b : UInt8 => decide (b ≠ 32)) header
  cases hdrop : header.dropWhile fun b : UInt8 => decide (b ≠ 32) with
  | nil =>
    rw [hdrop] at h
    exact absurd h (by simp)
  | cons b rest =>
    rw [hdrop] at h hhead hcut
    obtain rfl : b = 32 := by simpa using hhead
    simp only [List.map_cons] at h
    split at h
    · rename_i htype
      have htype' : latin1 (header.takeWhile fun b : UInt8 => decide (b ≠ 32)) =
          latin1 (lua "Bearer") := htype
      rw [List.takeWhile_map, hpred] at h
      have htoken : latin1 (rest.takeWhile fun b : UInt8 => decide (b ≠ 32)) = latin1 token :=
        Option.some.inj h
      refine ⟨rest.dropWhile fun b : UInt8 => decide (b ≠ 32), ?_, ?_⟩
      · rw [← latin1_inj htoken, List.takeWhile_append_dropWhile, ← latin1_inj htype', hcut]
      · have := List.head?_dropWhile_not (fun b : UInt8 => decide (b ≠ 32)) rest
        intro b hb
        rw [hb] at this
        simpa using this
    · exact absurd h (by simp)

theorem not_blank {b : UInt8} (hb : isBase64url b = true) : isSpace b = false := by
  simp only [isBase64url, decide_eq_true_eq, UInt8.le_iff_toNat_le, ← UInt8.toNat_inj,
    UInt8.reduceToNat] at hb
  simp only [isSpace, decide_eq_false_iff_not, UInt8.le_iff_toNat_le, ← UInt8.toNat_inj,
    UInt8.reduceToNat]
  omega

theorem not_dot {b : UInt8} (hb : isBase64url b = true) : b ≠ 46 := by
  rintro rfl
  exact absurd hb (by decide)

/-- The Lua pattern takes everything after the scheme and the blank. -/
theorem bearerToken_segment {a : LuaString} (ha : Segment a) (rest : LuaString) :
    bearerToken (lua "Bearer" ++ 32 :: (a ++ rest)) = some (a ++ rest) := by
  obtain ⟨b, a, rfl⟩ := List.exists_cons_of_ne_nil ha.1
  have hb : isSpace b = false := not_blank (ha.2 b List.mem_cons_self)
  have hscheme : lua "Bearer" = 66 :: lua "earer" := rfl
  have hlen : (lua "earer").length = 5 := rfl
  have hblank : isSpace 32 = true := by decide
  rw [hscheme, List.cons_append, bearerToken]
  rw [if_pos ⟨.inl rfl, by rw [← hlen, List.take_left']; rfl⟩, ← hlen, List.drop_left' rfl]
  simp [hblank, hb]

theorem Segment.not_mem_dot {a : LuaString} (ha : Segment a) : 46 ∉ a :=
  fun h => not_dot (ha.2 46 h) rfl

/-- Up to a dot there is one piece, or none where two dots meet. -/
theorem gmatchParts_dot {a : LuaString} (ha : 46 ∉ a) (rest : LuaString) :
    gmatchParts (a ++ 46 :: rest) = [a].filter (· ≠ []) ++ gmatchParts rest := by
  have hdot : ∀ b ∈ a, (b == 46) = false := fun b hb => beq_false_of_ne fun h => ha (h ▸ hb)
  have hcut : (a ++ 46 :: rest).splitOn 46 = [a] ++ rest.splitOn 46 :=
    List.splitOnP_append_cons_of_forall_mem hdot 46 (by decide) rest
  unfold gmatchParts
  rw [hcut, List.filter_append]

/-- A segment and a dot are one piece. -/
theorem gmatchParts_segment {a : LuaString} (ha : Segment a) (rest : LuaString) :
    gmatchParts (a ++ 46 :: rest) = a :: gmatchParts rest := by
  rw [gmatchParts_dot ha.not_mem_dot, List.filter_cons_of_pos (by simpa using ha.1)]
  rfl

/-- Three segments joined by dots, with this payload. -/
def IsJwt (token payload : LuaString) : Prop :=
  ∃ a c, Segment a ∧ Segment payload ∧ Segment c ∧ token = a ++ 46 :: (payload ++ 46 :: c)

/-- Whatever follows the token, its second piece is the payload, or there are not three pieces. -/
theorem extractJti_jwt {D : PayloadReader} (hD : DecodersAgree N D) {token part bytes : LuaString}
    {j : String} (htoken : IsJwt token part) (hdecode : D.decode part = some bytes)
    (hjti : D.jti bytes = some j) (rest : LuaString) :
    (∃ e, extractJti N (token ++ rest) = .ok (.error e)) ∨
      extractJti N (token ++ rest) = .ok (.ok (.string (Utf8.encode j))) := by
  obtain ⟨a, c, ha, hpart, -, rfl⟩ := htoken
  have hparts : gmatchParts (a ++ 46 :: (part ++ 46 :: c) ++ rest) =
      a :: part :: gmatchParts (c ++ rest) := by
    rw [List.append_assoc, List.cons_append, List.append_assoc, List.cons_append,
      gmatchParts_segment ha, gmatchParts_segment hpart]
  unfold extractJti
  rw [hparts]
  split
  · rename_i part' _ heq
    obtain ⟨-, rfl, -⟩ : a = _ ∧ part = part' ∧ _ := by simpa using heq
    rw [base64urlDecode_eq]
    cases hbytes : N.decodeBase64 (padded part) with
    | none => exact .inl ⟨_, rfl⟩
    | some bytes' =>
      obtain rfl := hD.base64 hpart hdecode hbytes
      cases hvalue : N.cjsonDecode bytes' with
      | error e => exact .inl ⟨lua "JSON decode failed: " ++ e, by simp only [hvalue]⟩
      | ok v =>
        obtain ⟨get, rfl, hget⟩ := hD.json hjti hvalue
        right
        simp only [hvalue, LuaValue.truthy, if_true, LuaValue.index, Except.map, hget]
  · exact .inl ⟨_, rfl⟩

/-! ## The keys of a request -/

/-- The operation looks at no key but those of this claim. -/
def OfJti (jti : LuaString) : EdgeOp → Prop
  | .get key => key = lua "blacklist:jti:" ++ jti ∨ key = lua "auth:cache:" ++ jti
  | .setex key _ _ => key = lua "auth:cache:" ++ jti
  | _ => True

theorem all_connect {P : EdgeOp → Prop} (h : P .connect) : connect.All P := by
  refine ⟨h, fun r => ?_⟩
  cases r <;> trivial

theorem all_get {P : EdgeOp → Prop} {key : LuaString} (h : P (.get key)) : (get key).All P := by
  refine ⟨h, fun r => ?_⟩
  cases r <;> trivial

theorem blacklistKey_string {jti key : LuaString} (h : blacklistKey (.string jti) = .ok key) :
    key = lua "blacklist:jti:" ++ jti := (Except.ok.inj h).symm

theorem cacheKey_string {jti key : LuaString} (h : cacheKey (.string jti) = .ok key) :
    key = lua "auth:cache:" ++ jti := (Except.ok.inj h).symm

theorem all_lookup (jti : LuaString) : (lookup N (.string jti)).All (OfJti jti) := by
  unfold lookup
  refine Prog.All.ofExcept_bind fun bkey hbkey => ?_
  refine Prog.All.bind (all_get (.inl (blacklistKey_string hbkey))) fun found => ?_
  split
  · trivial
  · refine Prog.All.ofExcept_bind fun key hkey => ?_
    refine Prog.All.bind (all_get (.inr (cacheKey_string hkey))) fun cached => ?_
    cases cached with
    | none => trivial
    | some cached =>
      simp only []
      split
      · trivial
      · split
        · exact Prog.All.ofExcept_bind fun _ _ => trivial
        · trivial

theorem all_verify (header jti : LuaString) :
    (verify N header (.string jti)).All (OfJti jti) := by
  unfold verify
  refine Prog.All.bind ⟨trivial, fun r => by cases r <;> trivial⟩ fun res => ?_
  split
  · trivial
  · refine Prog.All.bind (all_connect trivial) fun ok => ?_
    split
    · refine Prog.All.ofExcept_bind fun key hkey => ?_
      exact ⟨cacheKey_string hkey, fun _ => trivial⟩
    · trivial

theorem all_check {header token jti : LuaString} (htoken : bearerToken header = some token)
    (hjti : extractJti N token = .ok (.ok (.string jti))) :
    (check N [header]).All (OfJti jti) := by
  unfold check
  simp only [htoken, hjti]
  refine Prog.All.ofExcept_bind fun found hfound => ?_
  obtain rfl := Except.ok.inj hfound
  refine Prog.All.bind (all_connect trivial) fun ok => ?_
  split
  · refine Prog.All.bind (all_lookup jti) fun reply => ?_
    split
    · trivial
    · exact all_verify header jti
  · exact all_verify header jti

section Machine

variable [LinearOrder T] [Ring T]

/-- **The gateway and the service look at the same token**: where the service reads the claim `j`,
the gateway refuses the token as malformed or reads `j`, and in every run the keys of this request
are made of `j`. -/
theorem same_jti {D : PayloadReader} (hD : DecodersAgree N D)
    {header token part bytes : LuaString} {j : String}
    (hheader : JwtAuthGuard.extractToken (some (latin1 header)) = some (latin1 token))
    (htoken : IsJwt token part) (hdecode : D.decode part = some bytes)
    (hjti : D.jti bytes = some j) :
    (check N [header] = .ret (refuse "unauthorized" "Malformed token.") ∨
      ∃ token', bearerToken header = some token' ∧
        extractJti N token' = .ok (.ok (.string (Utf8.encode j)))) ∧
    ∀ s c, (edge N).Reachable ((edge N).init s) c → ∀ x ∈ c.trace, x.call = [header] →
      OfJti (Utf8.encode j) x.op := by
  obtain ⟨rest, rfl, -⟩ := extractToken_latin1 hheader
  have hbearer : bearerToken (lua "Bearer" ++ 32 :: (token ++ rest)) = some (token ++ rest) := by
    obtain ⟨a, c, ha, -, -, rfl⟩ := htoken
    rw [List.append_assoc]
    exact bearerToken_segment ha _
  have hread := extractJti_jwt hD htoken hdecode hjti rest
  refine ⟨hread.imp (fun hbad => ?_) fun hgood => ⟨_, hbearer, hgood⟩, ?_⟩
  · obtain ⟨e, he⟩ := hbad
    unfold check
    simp only [hbearer, he]
    rfl
  · have hall : ∀ call, (check N call).All fun o =>
        call = [lua "Bearer" ++ 32 :: (token ++ rest)] → OfJti (Utf8.encode j) o := by
      intro call
      by_cases hcall : call = [lua "Bearer" ++ 32 :: (token ++ rest)]
      · subst hcall
        refine Prog.All.mono (fun o ho _ => ho) ?_
        rcases hread with ⟨e, he⟩ | hgood
        · unfold check
          simp only [hbearer, he]
          trivial
        · exact all_check hbearer hgood
      · exact (Prog.all_true _).mono fun o _ h => absurd h hcall
    intro s c hc x hx hcall
    obtain ⟨c', hc', hwait, -, -⟩ := Machine.waited_of_trace hc hx
    exact Machine.waits_all hall hc' hwait hcall

end Machine

/-! ## Payloads that the script can take apart -/

/-- A claim that is missing, or that can be concatenated. -/
def ClaimShape : LuaValue → Prop
  | .nil | .boolean false | .string _ | .number _ => True
  | _ => False

/-- A payload that the script does not read, a text, which has no claims, or an object with such a
claim. -/
def PayloadShape : LuaValue → Prop
  | .nil | .boolean false | .string _ => True
  | .table get => ClaimShape (get (lua "jti"))
  | _ => False

variable (N) in
/-- The header carries no token of three pieces with a payload of another shape. -/
def WellShaped (header : LuaString) : Prop :=
  ∀ token a part c json payload, bearerToken header = some token →
    gmatchParts token = [a, part, c] → base64urlDecode N part = some json →
    N.cjsonDecode json = .ok payload → PayloadShape payload

/-- The request passed, or was answered 401. -/
def Answered : Except LuaErr CheckReply → Prop
  | .ok (.pass _) => True
  | .ok (.exit status _) => status = 401
  | .error _ => False

/-- The claim can be concatenated. -/
def Joins (jti : LuaValue) : Prop := ∀ text, ∃ key, jti.concat text = .ok key

theorem joins_iff {v : LuaValue} (ht : v.truthy = true) : Joins v ↔ ClaimShape v := by
  unfold Joins
  cases v with
  | nil => exact absurd ht (by simp [LuaValue.truthy])
  | boolean b =>
    obtain rfl : b = true := ht
    simp [LuaValue.concat, ClaimShape]
  | number bytes => simp [LuaValue.concat, ClaimShape]
  | string bytes => simp [LuaValue.concat, ClaimShape]
  | userdata => simp [LuaValue.concat, ClaimShape]
  | function => simp [LuaValue.concat, ClaimShape]
  | table get => simp [LuaValue.concat, ClaimShape]

/-- What `extract_jti` makes of a payload. -/
theorem read_payload (v : LuaValue) : PayloadShape v ↔
    v.truthy = true → ∃ jti, v.index (lua "jti") = .ok jti ∧ (jti.truthy = true → Joins jti) := by
  have hlib : lua "jti" ∉ LuaValue.stringLibrary := by decide
  cases v with
  | nil => simp [PayloadShape, LuaValue.truthy]
  | boolean b => cases b <;> simp [PayloadShape, LuaValue.truthy, LuaValue.index]
  | number bytes => simp [PayloadShape, LuaValue.truthy, LuaValue.index]
  | string bytes => simp [PayloadShape, LuaValue.truthy, LuaValue.index, hlib]
  | userdata => simp [PayloadShape, LuaValue.truthy, LuaValue.index]
  | function => simp [PayloadShape, LuaValue.truthy, LuaValue.index]
  | table get =>
    have hclaim : ClaimShape (get (lua "jti")) ↔
        ((get (lua "jti")).truthy = true → Joins (get (lua "jti"))) := by
      by_cases ht : (get (lua "jti")).truthy = true
      · simp [ht, joins_iff ht]
      · cases hv : get (lua "jti") <;> simp_all [ClaimShape, LuaValue.truthy]
    simp [PayloadShape, LuaValue.truthy, LuaValue.index, hclaim]

theorem extractJti_payload {token a part c json : LuaString} {v : LuaValue}
    (hparts : gmatchParts token = [a, part, c]) (hjson : base64urlDecode N part = some json)
    (hv : N.cjsonDecode json = .ok v) : extractJti N token =
      if v.truthy then (v.index (lua "jti")).map fun jti =>
        if jti.truthy then .ok jti else .error (lua "jti claim missing from token")
      else .ok (.error (lua "JSON decode failed: unknown")) := by
  unfold extractJti
  simp only [hparts, hjson, hv]

/-- Before the payload is a value, a token is only ever refused. -/
theorem extractJti_cases (token : LuaString) : (∃ e, extractJti N token = .ok (.error e)) ∨
    ∃ a part c json v, gmatchParts token = [a, part, c] ∧ base64urlDecode N part = some json ∧
      N.cjsonDecode json = .ok v := by
  unfold extractJti
  split
  · rename_i a part c hparts
    cases hjson : base64urlDecode N part with
    | none => exact .inl ⟨lua "base64url decode failed", rfl⟩
    | some json =>
      cases hv : N.cjsonDecode json with
      | error e => exact .inl ⟨lua "JSON decode failed: " ++ e, by simp only [hv]⟩
      | ok v => exact .inr ⟨a, part, c, json, v, hparts, hjson, hv⟩
  · exact .inl ⟨_, rfl⟩

variable (N) in
/-- `extract_jti` refuses the token, or reads a claim that can be concatenated. -/
def Reads (token : LuaString) : Prop :=
  (∃ e, extractJti N token = .ok (.error e)) ∨
    ∃ jti, extractJti N token = .ok (.ok jti) ∧ Joins jti

theorem reads_payload {token a part c json : LuaString} {v : LuaValue}
    (hparts : gmatchParts token = [a, part, c]) (hjson : base64urlDecode N part = some json)
    (hv : N.cjsonDecode json = .ok v) : Reads N token ↔ PayloadShape v := by
  rw [read_payload, Reads, extractJti_payload hparts hjson hv]
  by_cases ht : v.truthy = true
  · cases hindex : v.index (lua "jti") with
    | error e => simp [ht, Except.map]
    | ok jti => by_cases hj : jti.truthy = true <;> simp [ht, hj, Except.map]
  · simp [ht]

theorem wellShaped_iff {header : LuaString} :
    WellShaped N header ↔ ∀ token, bearerToken header = some token → Reads N token := by
  constructor
  · intro h token htoken
    rcases extractJti_cases (N := N) token with hbad | ⟨a, part, c, json, v, hparts, hjson, hv⟩
    · exact .inl hbad
    · exact (reads_payload hparts hjson hv).mpr (h token a part c json v htoken hparts hjson hv)
  · intro h token a part c json v htoken hparts hjson hv
    exact (reads_payload hparts hjson hv).mp (h token htoken)

/-! ## No request raises -/

variable (N) in
/-- A cached value was read that is no user. -/
def ReadJunk (l : List (Seen EdgeSig)) : Prop :=
  ∃ key cached v, lua "auth:cache:" <+: key ∧ ReadCache l key cached ∧
    N.cjsonDecode cached = .ok v ∧ ∀ user, userHeaders v ≠ .ok user

variable {l : List (Seen EdgeSig)}

theorem along_lookup_joins {jti : LuaValue} (hjti : Joins jti) : (lookup N jti).Along
    (fun _ _ => True)
    (fun l' r => (∃ e, r = .error e ∧ ReadJunk N l') ∨ r = .ok none ∨
      ∃ reply, r = .ok (some reply) ∧ Answered (.ok reply)) l := by
  have hkeys : ∀ e, blacklistKey jti ≠ .error e ∧ cacheKey jti ≠ .error e := by
    intro e
    obtain ⟨bkey, hbkey⟩ := hjti (lua "blacklist:jti:")
    obtain ⟨ckey, hckey⟩ := hjti (lua "auth:cache:")
    exact ⟨fun h => absurd (hbkey.symm.trans h) (by simp),
      fun h => absurd (hckey.symm.trans h) (by simp)⟩
  unfold lookup
  refine Prog.along_ofExcept_bind (fun bkey _ => ?_) fun e he => absurd he (hkeys e).1
  refine Prog.Along.bind (along_get trivial) (fun found l₁ _ => ?_) fun e _ h => absurd h (by simp)
  split
  · exact .inr (.inr ⟨_, rfl, rfl⟩)
  · refine Prog.along_ofExcept_bind (fun key hkey => ?_) fun e he => absurd he (hkeys e).2
    refine Prog.Along.bind (along_get trivial) (fun found l₂ h₂ => ?_)
      fun e _ h => absurd h (by simp)
    cases found with
    | none => exact .inr (.inl rfl)
    | some cached =>
      simp only []
      split
      · exact .inr (.inl rfl)
      · rename_i v hdecode
        split
        · refine Prog.along_ofExcept_bind (fun user _ => .inr (.inr ⟨_, rfl, trivial⟩))
            fun e he => .inl ⟨e, rfl, ?_⟩
          obtain ⟨-, found, hfound, hread⟩ := h₂
          exact ⟨key, cached, v, cacheKey_named hkey, hread cached (Except.ok.inj hfound).symm,
            hdecode, fun user hu => absurd (he.symm.trans hu) (by simp)⟩
        · exact .inr (.inl rfl)

theorem along_verify_joins {jti : LuaValue} (hjti : Joins jti) (header : LuaString) :
    (verify N header jti).Along (fun _ _ => True) (fun _ r => Answered r) l := by
  unfold verify
  refine Prog.Along.bind (along_capture trivial) (fun res l₁ _ => ?_)
    fun e _ h => absurd h (by simp)
  split
  · exact rfl
  · refine Prog.Along.bind (along_connect trivial) (fun ok l₂ _ => ?_)
      fun e _ h => absurd h (by simp)
    split
    · refine Prog.along_ofExcept_bind (fun key _ => ⟨trivial, fun r => trivial⟩) fun e he => ?_
      obtain ⟨key, hkey⟩ := hjti (lua "auth:cache:")
      exact absurd (hkey.symm.trans he) (by simp)
    · trivial

/-- A header that is well shaped is answered, unless the cache holds junk. -/
theorem along_check {header : LuaString} (h : WellShaped N header) :
    (check N [header]).Along (fun _ _ => True) (fun l r => Answered r ∨ ReadJunk N l) [] := by
  unfold check
  simp only []
  split
  · exact .inl rfl
  · rename_i token htoken
    have hread : Reads N token := wellShaped_iff.mp h token htoken
    refine Prog.along_ofExcept_bind (fun jti? hjti? => ?_) fun e he => ?_
    · split
      · exact .inl rfl
      · rename_i jti
        have hjti : Joins jti := by
          rcases hread with ⟨e, he⟩ | ⟨jti', he, hjoins⟩
          · exact absurd (he.symm.trans hjti?) (by simp)
          · obtain rfl := Except.ok.inj (Except.ok.inj (he.symm.trans hjti?))
            exact hjoins
        have hverify : ∀ l, (verify N header jti).Along (fun _ _ => True)
            (fun l r => Answered r ∨ ReadJunk N l) l := fun l =>
          (along_verify_joins hjti header).mono fun _ _ => .inl
        refine Prog.Along.bind (along_connect trivial) (fun ok l₁ _ => ?_)
          fun e _ h => absurd h (by simp)
        split
        · refine Prog.Along.bind (along_lookup_joins hjti) (fun reply l₂ h₂ => ?_)
            fun e l' h => ?_
          · split
            · rcases h₂ with ⟨e, he, -⟩ | he | ⟨reply', he, ha⟩
              · exact absurd he (by simp)
              · exact absurd he (by simp)
              · exact .inl (Option.some.inj (Except.ok.inj he) ▸ ha)
            · exact hverify l₂
          · rcases h with ⟨e', -, hjunk⟩ | he | ⟨reply, he, -⟩
            · exact .inr hjunk
            · exact absurd he (by simp)
            · exact absurd he (by simp)
        · exact hverify l₁
    · rcases hread with ⟨e', he'⟩ | ⟨jti, he', -⟩
      · exact absurd (he.symm.trans he') (by simp)
      · exact absurd (he.symm.trans he') (by simp)

section Runs

variable [LinearOrder T] [Ring T] {now : T} {c : Config (edge N)} {i : Nat}

variable (N) in
/-- **Every request with this header is answered**: from whatever state a run reaches, and however
its operations end, it ends with a pass or a 401. -/
def AlwaysAnswered (now : T) (header : LuaString) : Prop :=
  ∀ c, (edge N).Reachable ((edge N).init (.empty now)) c → ∀ i p,
    c.threads i = some ⟨[header], p, false⟩ → ∀ φ, ∃ r s,
      (edge N).finish i p c.state φ = some (r, s) ∧ Answered r

/-- The gateway caches users only. -/
theorem not_readJunk (hN : N.ReadsUsers) {call : List LuaString}
    (hl : (edge N).Recalls ((edge N).init (.empty now)) i call l c) : ¬ ReadJunk N l := by
  rintro ⟨key, cached, v, hkey, hread, hdecode, hjunk⟩
  obtain ⟨c₁, c₂, m, h₁, -, -, hx, -⟩ := hl.ran _ hread
  obtain ⟨ch, s, hexec, -⟩ := hx.ok_cases
  have hlive : c₁.state.live key = some cached :=
    Except.ok.inj (Prod.mk.inj (Option.some.inj hexec)).1
  obtain ⟨-, -, res, -, -, -, rfl, -⟩ := setter_of_live h₁ hkey hlive
  obtain ⟨v', hv', huser⟩ := decode_user hN res
  obtain rfl := Except.ok.inj (hdecode.symm.trans hv')
  exact hjunk _ huser

/-- Every operation ends, in whatever way. -/
theorem edge_answers (m : Mode Unit LuaErr) (o : EdgeOp) (s : EdgeStore T) :
    ∃ r s' took, (edge N).answer i m o s = some (r, s', took) := by
  cases m with
  | fail e => exact ⟨_, _, _, rfl⟩
  | ok ch | lost ch e => cases o <;> exact ⟨_, _, _, rfl⟩

theorem answered_of_wellShaped (hN : N.ReadsUsers) {header : LuaString}
    (h : WellShaped N header) : AlwaysAnswered N now header := by
  intro c hc i p ht φ
  have hbody : ∀ call, ((edge N).body call).Along (fun _ _ => True)
      (fun l r => call = [header] → Answered r ∨ ReadJunk N l) [] := by
    intro call
    by_cases hcall : call = [header]
    · subst hcall
      exact (along_check h).mono fun _ _ hr _ => hr
    · exact (Prog.Along.of_all (fun _ _ _ => trivial) (Prog.all_true _)).mono
        fun _ _ _ h => absurd h hcall
  obtain ⟨r, s, -, hr, -, -⟩ := Machine.finish_related (M := edge N) (i := i) (φ := φ)
    (R := Eq) (Prog.all_true p) (fun o m s t _ hst => by
      obtain ⟨r, s', took, ha⟩ := edge_answers (N := N) (i := i) m o s
      exact ⟨r, s', s', took, ha, hst ▸ ha, rfl⟩) (rfl : c.state = c.state)
  refine ⟨r, s, hr, ?_⟩
  obtain ⟨n, hruns⟩ := Machine.Runs.of_finish hr
  obtain ⟨c', p', hc', -, -, ht', hout⟩ := hruns.reach hc ht
  obtain ⟨l, hl, hend⟩ := Machine.along_thread hbody hc' ht'
  have hr : Answered r ∨ ReadJunk N l := by
    cases p' with
    | ret a => exact Option.some.inj hout ▸ hend rfl
    | throw e => exact Option.some.inj hout ▸ hend rfl
    | await o k => exact absurd hout (by simp [Prog.outcome])
  exact hr.resolve_right (not_readJunk hN hl)

omit [LinearOrder T] [Ring T] in
/-- A claim that cannot be concatenated raises with every text. -/
theorem concat_raises {jti : LuaValue} (h : ¬ Joins jti) (text : LuaString) :
    ∃ e, jti.concat text = .error e := by
  cases jti with
  | number bytes | string bytes => exact absurd (fun text => ⟨_, rfl⟩) h
  | nil | boolean b | userdata | function | table get => exact ⟨_, rfl⟩

/-- A header of another shape raises where Redis answers, if not before. -/
theorem raises_of_not_reads {header token : LuaString} (htoken : bearerToken header = some token)
    (h : ¬ Reads N token) (s : EdgeStore T) :
    ∃ e, (edge N).finish i (check N [header]) s (fun _ => .ok ()) = some (.error e, s) := by
  -- once the piece is read and Redis is there, the lookup comes next
  obtain ⟨k, g, hcheck, hk⟩ : ∃ k, ∃ g : LuaValue → Option CheckReply → Prog EdgeSig CheckReply,
      check N [header] = Prog.ofExcept (extractJti N token) >>= k ∧
      ∀ jti, (edge N).finish i (k (.ok jti)) s (fun _ => .ok ()) =
        (edge N).finish i (lookup N jti >>= g jti) s (fun _ => .ok ()) := by
    unfold check
    simp only [htoken]
    exact ⟨_, _, rfl, fun _ => rfl⟩
  rw [hcheck]
  cases hread : extractJti N token with
  | error e => exact ⟨e, rfl⟩
  | ok claim =>
    cases claim with
    | error e => exact absurd (.inl ⟨e, hread⟩) h
    | ok jti =>
      have hjoins : ¬ Joins jti := fun hj => h (.inr ⟨jti, hread, hj⟩)
      obtain ⟨e, he⟩ := concat_raises hjoins (lua "blacklist:jti:")
      have hlookup : lookup N jti = .throw e := by
        unfold lookup blacklistKey
        rw [he]
        rfl
      refine ⟨e, ?_⟩
      rw [Prog.ofExcept, Prog.ret_bind, hk, hlookup]
      rfl

theorem not_alwaysAnswered (now : T) {header token : LuaString}
    (htoken : bearerToken header = some token) (h : ¬ Reads N token) :
    ¬ AlwaysAnswered N now header := by
  intro hall
  obtain ⟨e, he⟩ := raises_of_not_reads (i := 0) htoken h (.empty now)
  obtain ⟨r, s, hr, hans⟩ := hall _ (.step (.spawn 0 [header]) .init trivial rfl) 0 _ rfl
    fun _ => .ok ()
  obtain ⟨rfl, -⟩ := Prod.mk.inj (Option.some.inj (he.symm.trans hr))
  exact hans

/-- **A header is answered in every run** exactly when its payload has a shape that the script can
take apart. -/
theorem check_answered_iff (hN : N.ReadsUsers) (now : T) (header : LuaString) :
    AlwaysAnswered N now header ↔ WellShaped N header := by
  refine ⟨fun h => wellShaped_iff.mpr fun token htoken => ?_, answered_of_wellShaped hN⟩
  by_contra hnot
  exact not_alwaysAnswered now htoken hnot h

end Runs

/-! ## Small runs -/

/-- How the service reads the payload of user 7. -/
def sampleReader : PayloadReader where
  decode s := if s = lua part7 then some (lua claims7) else none
  jti b := if b = lua claims7 then some "1" else none

theorem sample_agree : DecodersAgree sampleEdge sampleReader where
  base64 {s b b'} _ hdecode hbytes := by
    simp only [sampleReader] at hdecode
    split at hdecode
    · rename_i hs
      subst hs
      have hpadded : padded (lua part7) = lua (part7 ++ "==") := by decide +kernel
      have hb' : some (lua claims7) = some b' := by
        rw [← hbytes, hpadded]
        rfl
      exact (Option.some.inj hb').symm.trans (Option.some.inj hdecode)
    · exact absurd hdecode (by simp)
  json {b j v} hjti hv := by
    simp only [sampleReader] at hjti
    split at hjti
    · rename_i hb
      subst hb
      obtain rfl := Option.some.inj hjti
      obtain rfl := Except.ok.inj hv
      exact ⟨_, rfl, rfl⟩
    · exact absurd hjti (by simp)

/-- The service takes the token out of this header, and both read the claim. -/
theorem same_jti_seven : (∃ token', bearerToken (header7 "c2ln") = some token' ∧
      extractJti sampleEdge token' = .ok (.ok (.string (Utf8.encode "1")))) ∧
    ∀ s c, (edge sampleEdge).Reachable ((edge sampleEdge).init s) c → ∀ x ∈ c.trace,
      x.call = [header7 "c2ln"] → OfJti (Utf8.encode "1") x.op := by
  have hsegments : IsJwt (lua ("e30." ++ part7 ++ "." ++ "c2ln")) (lua part7) :=
    ⟨lua "e30", lua "c2ln", ⟨by decide, by decide +kernel⟩, ⟨by decide, by decide +kernel⟩,
      ⟨by decide, by decide +kernel⟩, by decide +kernel⟩
  have hheader : JwtAuthGuard.extractToken (some (latin1 (header7 "c2ln"))) =
      some (latin1 (lua ("e30." ++ part7 ++ "." ++ "c2ln"))) := by decide +kernel
  have hdecode : sampleReader.decode (lua part7) = some (lua claims7) := by simp [sampleReader]
  have hjti : sampleReader.jti (lua claims7) = some "1" := by simp [sampleReader]
  obtain ⟨hread, hkeys⟩ := same_jti sample_agree hheader hsegments hdecode hjti
  refine ⟨hread.resolve_left fun h => ?_, hkeys⟩
  have hwaits : (check sampleEdge [header7 "c2ln"]).pending = some .connect := by decide +kernel
  exact absurd (hwaits.symm.trans (congrArg Prog.pending h)) (by simp [Prog.pending])

/-- Libraries for which `bnVsbA` is the text `null`. -/
def nullEdge : Openresty ℤ :=
  { sampleEdge with
    decodeBase64 := fun s => if s = lua "bnVsbA==" then some (lua "null") else none
    cjsonDecode := fun s => if s = lua "null" then .ok .userdata else jsonDecode s }

theorem nullEdge_readsUsers : nullEdge.ReadsUsers := by
  intro sub tier role
  have hne : jsonEncode sub tier role ≠ lua "null" := by
    intro h
    exact absurd (List.cons.inj h).1 (by decide)
  obtain ⟨get, hget, hclaims⟩ := sampleEdge_readsUsers sub tier role
  refine ⟨get, ?_, hclaims⟩
  show (if jsonEncode sub tier role = lua "null" then Except.ok LuaValue.userdata else _) = _
  rw [if_neg hne]
  exact hget

/-- Anybody's token with the payload `null` ends in a Lua error. -/
theorem null_payload_raises :
    check nullEdge [lua "Bearer e30.bnVsbA.c2ln"] = .throw (.attempt "index" "userdata") ∧
      ¬ AlwaysAnswered nullEdge 0 (lua "Bearer e30.bnVsbA.c2ln") := by
  have htoken : bearerToken (lua "Bearer e30.bnVsbA.c2ln") = some (lua "e30.bnVsbA.c2ln") := by
    decide +kernel
  have hparts : gmatchParts (lua "e30.bnVsbA.c2ln") = [lua "e30", lua "bnVsbA", lua "c2ln"] := by
    decide +kernel
  have hjson : base64urlDecode nullEdge (lua "bnVsbA") = some (lua "null") := by decide +kernel
  have hnull : nullEdge.cjsonDecode (lua "null") = .ok .userdata := rfl
  refine ⟨?_, not_alwaysAnswered 0 htoken fun h => (reads_payload hparts hjson hnull).mp h⟩
  unfold check
  simp only [htoken, extractJti_payload hparts hjson hnull]
  rfl

/-- The signed token of user 7 is answered in every run. -/
theorem check_answered_seven : AlwaysAnswered sampleEdge 0 (header7 "c2ln") := by
  refine (check_answered_iff sampleEdge_readsUsers 0 _).mpr ?_
  intro token a part c json payload htoken hparts hjson hpayload
  obtain rfl : lua ("e30." ++ part7 ++ "." ++ "c2ln") = token := by
    have h : bearerToken (header7 "c2ln") = some (lua ("e30." ++ part7 ++ "." ++ "c2ln")) := by
      decide +kernel
    exact Option.some.inj (h.symm.trans htoken)
  have hcut : gmatchParts (lua ("e30." ++ part7 ++ "." ++ "c2ln")) =
      [lua "e30", lua part7, lua "c2ln"] := by decide +kernel
  obtain ⟨rfl, rfl, rfl⟩ : lua "e30" = a ∧ lua part7 = part ∧ lua "c2ln" = c := by
    simpa using hcut.symm.trans hparts
  have hbytes : base64urlDecode sampleEdge (lua part7) = some (lua claims7) := by decide +kernel
  obtain rfl := Option.some.inj (hbytes.symm.trans hjson)
  obtain rfl := Except.ok.inj hpayload
  trivial

end EdgeAuth

end BoltBet
