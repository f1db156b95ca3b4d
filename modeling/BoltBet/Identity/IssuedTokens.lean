import BoltBet.Edge.Payload
import BoltBet.Identity.Accounts
import BoltBet.Rabbitmq.Published
import BoltBet.Web.Tab

/-!
# What an issued access token says: `issueAccessToken`

An access token as the text that `signAsync` answers, and its readers: `decodeToken` in the browser,
`extractToken` of the guard, `extract_jti` at the gateway. Header and signature are any bytes.

* `Jws.compact`: the token of a payload. `Openresty.ReadsObjects`: how `cjson` reads an object.
* `atob_encode`: `atob` undoes the encoding of a segment. It makes a character of each byte, so what
  the browser reads has to be ASCII.
* `decodeToken_compact`, `extractToken_compact`, `extractJti_compact`: one lemma for each reader.
* **`issued_token_read`**: in every run, the readers agree on every token that was issued.
-/

namespace BoltBet

open Async

/-! ## The browser reads base64url -/

/-- A byte as a character. -/
def byteChar (b : UInt8) : Char := Char.ofNat b.toNat

theorem toNat_byteChar (b : UInt8) : (byteChar b).toNat = b.toNat :=
  Json.toNat_char (.inl (b.toNat_lt.trans (by decide)))

/-- A digit of a token, as the browser reads it. -/
def digitChar (n : Fin 64) : Char := unurl (byteChar (Base64.url.write n))

theorem sextet_digitChar (n : Fin 64) : sextet (digitChar n) = some n := by
  revert n
  decide

theorem digitChar_plain (n : Fin 64) :
    digitChar n ∉ [' ', '\t', '\n', '\r', Char.ofNat 12] ∧ digitChar n ≠ '=' := by
  revert n
  decide

/-- Four digits are three bytes, and the last ones one or two. -/
theorem sextetBytes_sextets (l : List UInt8) :
    sextetBytes ((Base64.sextets l).map Fin.val) = some (l.map UInt8.toNat) := by
  induction l using Base64.sextets.induct with
  | case1 => rfl
  | case2 a =>
    have ha := a.toNat_lt
    have hfirst : a.toNat / 4 % 64 * 4 + a.toNat * 16 % 64 / 16 = a.toNat := by omega
    simp [Base64.sextets, sextetBytes, hfirst]
  | case3 a b =>
    have ha := a.toNat_lt
    have hb := b.toNat_lt
    have hfirst : a.toNat / 4 % 64 * 4 + (a.toNat * 16 + b.toNat / 16) % 64 / 16 = a.toNat := by
      omega
    have hsecond : (a.toNat * 16 + b.toNat / 16) % 64 % 16 * 16 + b.toNat * 4 % 64 / 4 =
        b.toNat := by omega
    simp only [Base64.sextets, List.map_cons, List.map_nil, sextetBytes, Fin.val_ofNat, hfirst,
      hsecond]
  | case4 a b c rest ih =>
    have ha := a.toNat_lt
    have hb := b.toNat_lt
    have hc := c.toNat_lt
    have hfirst : a.toNat / 4 % 64 * 4 + (a.toNat * 16 + b.toNat / 16) % 64 / 16 = a.toNat := by
      omega
    have hsecond : (a.toNat * 16 + b.toNat / 16) % 64 % 16 * 16 +
        (b.toNat * 4 + c.toNat / 64) % 64 / 4 = b.toNat := by omega
    have hthird : (b.toNat * 4 + c.toNat / 64) % 64 % 4 * 64 + c.toNat % 64 = c.toNat := by omega
    simp only [Base64.sextets, List.map_cons, sextetBytes, Fin.val_ofNat, ih, Option.map_some,
      hfirst, hsecond, hthird, List.cons_append, List.nil_append]

/-- What has no padding keeps its characters. -/
theorem unpad_eq {l : List Char} (h : ∀ c ∈ l, c ≠ '=') : unpad l = l := by
  unfold unpad
  split
  · rfl
  · split
    · rename_i r hr
      exact absurd rfl (h '=' (List.mem_reverse.mp (hr ▸ List.mem_cons_self)))
    · rename_i r _ hr
      exact absurd rfl (h '=' (List.mem_reverse.mp (hr ▸ List.mem_cons_self)))
    · rfl

/-- **`atob` reads back what base64url wrote**, after the two `replace`. -/
theorem atob_encode (bytes : List UInt8) :
    atob (((Base64.url.encode bytes).map byteChar).map unurl) = some (bytes.map byteChar) := by
  have hdigits : ((Base64.url.encode bytes).map byteChar).map unurl =
      (Base64.sextets bytes).map digitChar := by
    unfold Base64.Alphabet.encode
    rw [List.map_map, List.map_map]
    rfl
  have hplain : ∀ c ∈ (Base64.sextets bytes).map digitChar,
      c ∉ [' ', '\t', '\n', '\r', Char.ofNat 12] ∧ c ≠ '=' := by
    intro c hc
    obtain ⟨n, -, rfl⟩ := List.mem_map.mp hc
    exact digitChar_plain n
  have hfilter : ((Base64.sextets bytes).map digitChar).filter
      (fun c => c ∉ [' ', '\t', '\n', '\r', Char.ofNat 12]) =
        (Base64.sextets bytes).map digitChar :=
    List.filter_eq_self.mpr fun c hc => decide_eq_true (hplain c hc).1
  have hread : ∀ digits : List (Fin 64),
      (digits.map digitChar).mapM sextet = some (digits.map Fin.val) := by
    intro digits
    induction digits with
    | nil => rfl
    | cons n digits ih =>
      rw [List.map_cons, List.mapM_cons, sextet_digitChar, ih]
      rfl
  unfold atob
  simp only [hdigits, hfilter, unpad_eq fun c hc => (hplain c hc).2, hread, Option.bind_some,
    sextetBytes_sextets, Option.map_some, List.map_map]
  rfl

/-- `cjson.decode` reads an object of texts and numbers; a text is its bytes. -/
def Openresty.ReadsObjects {T : Type} (N : Openresty T) : Prop :=
  ∀ (members : List (Json.Units × Json.Value)) (bytes : LuaString),
    Json.IsText (.object members) (Utf8.decode bytes) →
    (∀ m ∈ members, (∃ s, m.2 = .string (Json.text s)) ∨ ∃ l, m.2 = .number l) →
    ∃ get, N.cjsonDecode bytes = .ok (.table get) ∧ ∀ key s,
      (members.reverse.find? fun m => m.1 = Json.text key).map (·.2) =
        some (.string (Json.text s)) → get (Utf8.encode key) = .string (Utf8.encode s)

/-! ## The token -/

/-- `Role`, as a text. -/
def Role.text : Role → String
  | .USER => "USER"
  | .VIP_USER => "VIP_USER"
  | .ADMIN => "ADMIN"

/-- What `jsonwebtoken` puts beside a payload. -/
structure Jws where
  header : List UInt8
  signature : JwtPayload → List UInt8
  header_ne : header ≠ []
  signature_ne : ∀ p, signature p ≠ []

/-- A payload as an object, its members in the order they are set. -/
def JwtPayload.value (uuidText : Uuid → String) (p : JwtPayload) : Json.Value :=
  .object [(Json.text "sub", .string (Json.text (uuidText p.sub))),
    (Json.text "role", .string (Json.text p.role.text)),
    (Json.text "tier", .string (Json.text p.tier)),
    (Json.text "jti", .string (Json.text (uuidText p.jti))),
    (Json.text "iat", .number (Delivery.literal p.iat)),
    (Json.text "exp", .number (Delivery.literal p.exp))]

section Token

open EdgeAuth

variable {T : Type} (J : Jws) (uuidText : Uuid → String)

/-- The bytes of a token: header, payload and signature in base64url, joined by dots. -/
def Jws.bytes (p : JwtPayload) : LuaString :=
  joined (Base64.url.encode J.header) (Base64.url.encode (Delivery.sent (p.value uuidText)))
    (Base64.url.encode (J.signature p))

/-- The token. -/
def Jws.compact (p : JwtPayload) : String := latin1 (J.bytes uuidText p)

variable {J uuidText} {p : JwtPayload}

theorem numerals_value : Json.Numerals (p.value uuidText) := by
  simp [JwtPayload.value, Json.Numerals, Json.NumeralsMembers, Delivery.isNumber_literal]

/-- The texts of a payload are ASCII. -/
def JwtPayload.Plain (uuidText : Uuid → String) (p : JwtPayload) : Prop :=
  Utf8.Ascii (uuidText p.sub) ∧ Utf8.Ascii p.tier ∧ Utf8.Ascii (uuidText p.jti)

theorem ascii_value (hp : p.Plain uuidText) : Json.Ascii (Json.stringify (p.value uuidText)) := by
  have hkey : ∀ key ∈ ["sub", "role", "tier", "jti", "iat", "exp"],
      Json.Ascii (Json.quote (Json.text key)) := by
    have hplain : ∀ key ∈ ["sub", "role", "tier", "jti", "iat", "exp"],
        (key.toList.all fun c => c.toNat < 128) = true := by decide
    exact fun key hkey => Json.ascii_quote (Json.units_ascii (Json.ascii_of_all (hplain key hkey)))
  have hrole : Json.Ascii p.role.text.toList := by
    cases p.role <;> exact Json.ascii_of_all rfl
  obtain ⟨hsub, htier, hjti⟩ := hp
  refine Json.ascii_object ?_
  simp only [List.forall_mem_cons]
  refine ⟨⟨hkey _ (by decide), Json.ascii_string hsub⟩,
    ⟨hkey _ (by decide), Json.ascii_string hrole⟩, ⟨hkey _ (by decide), Json.ascii_string htier⟩,
    ⟨hkey _ (by decide), Json.ascii_string hjti⟩,
    ⟨hkey _ (by decide), Json.ascii_number (Delivery.isNumber_literal _)⟩,
    ⟨hkey _ (by decide), Json.ascii_number (Delivery.isNumber_literal _)⟩, ?_⟩
  exact fun m hm => absurd hm (by simp)

/-- ASCII bytes are their characters. -/
theorem map_byteChar_encode {l : List Char} (h : Json.Ascii l) :
    (Utf8.encode (String.ofList l)).map byteChar = l := by
  have hl : Utf8.Ascii (String.ofList l) := by rwa [Utf8.Ascii, String.toList_ofList]
  rw [Utf8.encode_ascii hl, String.toList_ofList, List.map_map]
  refine (List.map_congr_left fun c hc => ?_).trans (List.map_id l)
  have hc := h c hc
  show Char.ofNat (UInt8.ofNat c.toNat).toNat = c
  rw [Utf8.toNat_ofNat (by omega), Char.ofNat_toNat]

/-- A byte of a token is a digit or a dot. -/
theorem mem_bytes {b : UInt8} (hb : b ∈ J.bytes uuidText p) : isBase64url b = true ∨ b = 46 := by
  have hdigits : ∀ {l : LuaString}, b ∈ Base64.url.encode l → isBase64url b = true := by
    intro l hb
    obtain ⟨n, -, rfl⟩ := List.mem_map.mp hb
    exact isBase64url_write n
  simp only [Jws.bytes, joined, List.mem_append, List.mem_cons] at hb
  rcases hb with hb | hb | hb | hb | hb
  · exact .inl (hdigits hb)
  · exact .inr hb
  · exact .inl (hdigits hb)
  · exact .inr hb
  · exact .inl (hdigits hb)

/-- The token as bytes again. -/
theorem encode_compact : Utf8.encode (J.compact uuidText p) = J.bytes uuidText p := by
  have hlow : ∀ b ∈ J.bytes uuidText p, b.toNat < 128 := by
    intro b hb
    rcases mem_bytes hb with hdigit | rfl
    · simp only [isBase64url, decide_eq_true_eq, UInt8.le_iff_toNat_le, ← UInt8.toNat_inj,
        UInt8.reduceToNat] at hdigit
      omega
    · decide
  have hascii : Utf8.Ascii (J.compact uuidText p) := by
    intro c hc
    rw [Jws.compact, latin1, String.toList_ofList] at hc
    obtain ⟨b, hb, rfl⟩ := List.mem_map.mp hc
    exact (toNat_byteChar b).trans_lt (hlow b hb)
  rw [Utf8.encode_ascii hascii, Jws.compact, latin1, String.toList_ofList, List.map_map]
  refine (List.map_congr_left fun b _ => ?_).trans (List.map_id _)
  show UInt8.ofNat (byteChar b).toNat = b
  rw [toNat_byteChar, UInt8.ofNat_toNat]

/-- The digits up to a dot are the first piece. -/
theorem splitOn_dot (l : LuaString) (rest : List Char) :
    ((Base64.url.encode l).map byteChar ++ '.' :: rest).splitOn '.' =
      (Base64.url.encode l).map byteChar :: rest.splitOn '.' := by
  refine List.splitOnP_append_cons_of_forall_mem (fun c hc => ?_) '.' (by decide) rest
  obtain ⟨b, hb, rfl⟩ := List.mem_map.mp hc
  obtain ⟨n, -, rfl⟩ := List.mem_map.mp hb
  refine beq_false_of_ne fun h => not_dot (isBase64url_write n) ?_
  exact latin1_char_inj (h.trans (show '.' = Char.ofNat (46 : UInt8).toNat from rfl))

/-- **The browser reads the payload.** -/
theorem decodeToken_compact (hp : p.Plain uuidText) : decodeToken (J.compact uuidText p) = .ok
    { id := some (.json (.string (Json.text (uuidText p.sub))))
      email := .json (.string [])
      role := some (.json (.string (Json.text p.role.text))) } := by
  have hchars : (J.compact uuidText p).toList =
      (Base64.url.encode J.header).map byteChar ++ '.' ::
        ((Base64.url.encode (Delivery.sent (p.value uuidText))).map byteChar ++ '.' ::
          (Base64.url.encode (J.signature p)).map byteChar) := by
    rw [Jws.compact, latin1, String.toList_ofList, Jws.bytes, joined, List.map_append,
      List.map_cons, List.map_append, List.map_cons]
    rfl
  have hpiece : ((J.compact uuidText p).toList.splitOn '.')[1]? =
      some ((Base64.url.encode (Delivery.sent (p.value uuidText))).map byteChar) := by
    rw [hchars, splitOn_dot, splitOn_dot]
    rfl
  have htext : (Delivery.sent (p.value uuidText)).map byteChar =
      Json.stringify (p.value uuidText) := map_byteChar_encode (ascii_value hp)
  unfold decodeToken
  simp only [hpiece, atob_encode, htext, Json.parse_stringify numerals_value]
  rfl

/-- **The guard reads the token.** -/
theorem extractToken_compact :
    JwtAuthGuard.extractToken (some ("Bearer " ++ J.compact uuidText p)) =
      some (J.compact uuidText p) := by
  have hblank : ∀ c ∈ (J.compact uuidText p).toList, decide (c ≠ ' ') = true := by
    intro c hc
    rw [Jws.compact, latin1, String.toList_ofList] at hc
    obtain ⟨b, hb, rfl⟩ := List.mem_map.mp hc
    refine decide_eq_true fun h => ?_
    obtain rfl := latin1_char_blank.mp h
    rcases mem_bytes hb with hdigit | hdot
    · exact absurd hdigit (by decide)
    · exact absurd hdot (by decide)
  have hspan : ("Bearer " ++ J.compact uuidText p).toList.span (· ≠ ' ') =
      ("Bearer".toList, ' ' :: (J.compact uuidText p).toList) := by
    rw [String.toList_append, List.span_eq_takeWhile_dropWhile]
    rfl
  have hrest : (J.compact uuidText p).toList.takeWhile (· ≠ ' ') = (J.compact uuidText p).toList :=
    List.takeWhile_eq_self_iff.mpr hblank
  unfold JwtAuthGuard.extractToken
  simp only [Option.map_some, hspan, hrest, String.ofList_toList, if_true]

/-! ### At the gateway -/

theorem bearerToken_compact :
    bearerToken (Utf8.encode ("Bearer " ++ J.compact uuidText p)) = some (J.bytes uuidText p) := by
  have hscheme : Utf8.encode "Bearer " = lua "Bearer" ++ [32] := by decide +kernel
  rw [Utf8.encode_append, encode_compact, hscheme, List.append_assoc]
  exact bearerToken_segment (segment_encode J.header_ne) _

variable {N : Openresty T}

/-- **The gateway reads the claim `jti`.** -/
theorem extractJti_compact (hbase64 : N.InvertsBase64) (hcjson : N.ReadsObjects) :
    extractJti N (J.bytes uuidText p) = .ok (.ok (.string (Utf8.encode (uuidText p.jti)))) := by
  have htext : Json.IsText (p.value uuidText) (Utf8.decode (Delivery.sent (p.value uuidText))) :=
    Delivery.isText_sent numerals_value
  have hne : Delivery.sent (p.value uuidText) ≠ [] := by
    intro hnil
    have hparse := Json.parse_iff.mpr htext
    have hempty : Json.parse (Utf8.decode []) = none := rfl
    rw [hnil, hempty] at hparse
    exact absurd hparse (by simp)
  have hparts : gmatchParts (J.bytes uuidText p) =
      [Base64.url.encode J.header, Base64.url.encode (Delivery.sent (p.value uuidText)),
        Base64.url.encode (J.signature p)] := by
    have hheader := segment_encode J.header_ne
    have hpayload := segment_encode hne
    have hsignature := segment_encode (J.signature_ne p)
    rw [Jws.bytes, gmatchParts_joined hheader.not_mem_dot hpayload.not_mem_dot
      hsignature.not_mem_dot]
    simp [hheader.1, hpayload.1, hsignature.1]
  have hjson : N.HasJti (Delivery.sent (p.value uuidText))
      (.string (Utf8.encode (uuidText p.jti))) := by
    obtain ⟨get, hdecode, hget⟩ := hcjson _ _ htext (by simp)
    exact ⟨hne, ⟨get, hdecode, hget "jti" (uuidText p.jti) rfl⟩, by simp⟩
  exact (extractJti_hasJti hparts (base64urlDecode_encode hbase64 _) hjson).mpr (by simp)

end Token

/-! ## Every run -/

section Runs

variable {T : Type} [Ring T] [LinearOrder T] [FloorRing T] {P : Platform} {seed : List User}
  {now : T} {c : Config (auth T P)} {J : Jws} {N : Openresty T}

/-- What is signed is the token of its payload. -/
theorem signed_jwt (hc : (auth T P).Reachable ((auth T P).init (.seeded now seed)) c) :
    ∀ e ∈ c.state.signed, e.1 = P.jwt e.2 := by
  refine hc.follow (J := fun w : World (auth T P) => ∀ e ∈ w.state.signed, e.1 = P.jwt e.2)
    (by simp [Machine.init, AuthStore.seeded, AuthStore.empty]) (fun call s s' l hst h => ?_)
    (fun v s s' l hv h => ?_) fun _ _ _ _ hx h => ?_
  · obtain ⟨-, -, hsigned, -⟩ := auth_start_tables hst
    exact hsigned ▸ h
  · obtain ⟨-, -, hsigned, -⟩ := auth_env_tables hv
    exact hsigned ▸ h
  · rcases auth_exec_effect hx with hs | ⟨ch, heff⟩
    · exact hs ▸ h
    · rcases heff.signed_cases with hs | ⟨claims, -, hs⟩
      · exact hs ▸ h
      · rw [hs]
        exact List.forall_mem_cons.mpr ⟨rfl, h⟩

/-- **An issued token says the same wherever it is read**, in every run. The browser shows the id
and the role of a user of the table, and no email; the guard takes the token out of the header; the
gateway reads the claim `jti`, looks for the text under which `logout` blacklists it, and at no keys
of other claims. -/
theorem issued_token_read (hjwt : ∀ p, P.jwt p = J.compact P.uuidText p)
    (htext : ∀ id, Utf8.Ascii (P.uuidText id)) (hbase64 : N.InvertsBase64)
    (hcjson : N.ReadsObjects) (hids : (seed.map User.id).Nodup)
    (hc : (auth T P).Reachable ((auth T P).init (.seeded now seed)) c) :
    ∀ e ∈ c.state.signed, (∃ u ∈ c.state.users, decodeToken e.1 = .ok
        { id := some (.json (.string (Json.text (P.uuidText u.id))))
          email := .json (.string [])
          role := some (.json (.string (Json.text u.role.text))) }) ∧
      JwtAuthGuard.extractToken (some ("Bearer " ++ e.1)) = some e.1 ∧
      (∃ token, EdgeAuth.bearerToken (Utf8.encode ("Bearer " ++ e.1)) = some token ∧
        EdgeAuth.extractJti N token = .ok (.ok (.string (Utf8.encode (P.uuidText e.2.jti))))) ∧
      EdgeAuth.blacklistKey (.string (Utf8.encode (P.uuidText e.2.jti))) =
        .ok (Utf8.encode (P.blacklistKey e.2.jti)) ∧
      (EdgeAuth.check N [Utf8.encode ("Bearer " ++ e.1)]).All
        (EdgeAuth.OfJti (Utf8.encode (P.uuidText e.2.jti))) := by
  intro e he
  obtain ⟨u, hu, ⟨hsub, hrole, htier⟩, -⟩ := (Accounts.accounts hids hc).signed e he
  have htoken : e.1 = J.compact P.uuidText e.2 := (signed_jwt hc e he).trans (hjwt e.2)
  have hplain : e.2.Plain P.uuidText := by
    refine ⟨htext _, ?_, htext _⟩
    rw [htier]
    cases u.role <;> exact Json.ascii_of_all rfl
  have hbearer : EdgeAuth.bearerToken (Utf8.encode ("Bearer " ++ J.compact P.uuidText e.2)) =
      some (J.bytes P.uuidText e.2) := bearerToken_compact
  have hjti : EdgeAuth.extractJti N (J.bytes P.uuidText e.2) =
      .ok (.ok (.string (Utf8.encode (P.uuidText e.2.jti)))) := extractJti_compact hbase64 hcjson
  have hkey : Utf8.encode "blacklist:jti:" = lua "blacklist:jti:" := by decide +kernel
  rw [htoken, Platform.blacklistKey, Utf8.encode_append "blacklist:jti:", hkey]
  refine ⟨⟨u, hu, ?_⟩, extractToken_compact, ⟨_, hbearer, hjti⟩, rfl,
    EdgeAuth.all_check hbearer hjti⟩
  rw [← hsub, ← hrole]
  exact decodeToken_compact hplain

end Runs

/-- The header of the tokens, and a signature. -/
def sampleJws : Jws where
  header := lua "\x7b\"alg\":\"RS256\",\"typ\":\"JWT\"\x7d"
  signature _ := lua "signature"
  header_ne := by decide
  signature_ne _ := by decide

/-- A platform that issues these tokens. -/
def issuing : Platform := { sample with jwt := sampleJws.compact sample.uuidText }

/-- A member of an object, as a Lua value. -/
def memberValue : Option Json.Value → LuaValue
  | some (.string us) => .string (Utf8.encode (String.ofList (Json.untext us)))
  | some (.number l) => .number (Utf8.encode (String.ofList l))
  | _ => .nil

/-- An object as a table. -/
def objectTable (members : List (Json.Units × Json.Value)) : LuaValue :=
  .table fun key => memberValue ((members.reverse.find? fun m =>
    m.1 = Json.text (String.ofList (Utf8.decode key))).map (·.2))

/-- Libraries that read these tokens. -/
def readingEdge : Openresty ℤ :=
  { sampleEdge with
    decodeBase64 := Base64.standard.decodePadded 61
    cjsonDecode := fun bytes =>
      match Json.parse (Utf8.decode bytes) with
      | some (.object members) => .ok (objectTable members)
      | _ => .error (lua "no object") }

theorem readingEdge_readsObjects : readingEdge.ReadsObjects := by
  intro members bytes h _
  have hparse := Json.parse_iff.mpr h
  have hdecode : readingEdge.cjsonDecode bytes = .ok (objectTable members) := by
    simp only [readingEdge, hparse]
  refine ⟨_, hdecode, fun key s hs => ?_⟩
  simp only [Utf8.decode_encode, String.ofList_toList, hs, memberValue]
  rw [Json.untext_text]

theorem sample_ascii (id : Uuid) : Utf8.Ascii (issuing.uuidText id) := by
  intro c hc
  have hdigits : (toString id : String).toList = Nat.toDigits 10 id := by
    rw [Nat.toString_eq_ofList_toDigits, String.toList_ofList]
  have hdigit := digits_toDigits id c (hdigits ▸ hc)
  simp only [Char.isDigit, Bool.and_eq_true, decide_eq_true_eq] at hdigit
  exact lt_of_le_of_lt hdigit.2 (by decide)

/-- User 7 registers and logs in. -/
def issued : List (Event (auth ℤ issuing)) :=
  .spawn 0 (.register ⟨"a@b.c", "password77", by decide, by decide⟩) ::
  ([{}, {}, { fresh := 7 }] : List AuthChoice).map (fun ch => .run 0 (.ok ch)) ++
  .spawn 1 (.login ⟨"a@b.c", "password77"⟩ {}) ::
  ([{}, {}, { fresh := 20 }, {}, { secret := "s" }, {}, { fresh := 30 }, {},
    { fresh := 40 }] : List AuthChoice).map fun ch => .run 1 (.ok ch)

/-- The browser and the gateway read their token. -/
theorem issued_token_read_seven : ∃ c, (auth ℤ issuing).replay
      ((auth ℤ issuing).init (.seeded 0 [])) issued = some c ∧
    c.state.signed.map (fun e => (e.2.sub, e.2.jti)) = [(7, 20)] ∧
    ∀ e ∈ c.state.signed, (∃ u ∈ c.state.users, decodeToken e.1 = .ok
        { id := some (.json (.string (Json.text (issuing.uuidText u.id))))
          email := .json (.string [])
          role := some (.json (.string (Json.text u.role.text))) }) ∧
      ∃ token, EdgeAuth.bearerToken (Utf8.encode ("Bearer " ++ e.1)) = some token ∧
        EdgeAuth.extractJti readingEdge token =
          .ok (.ok (.string (Utf8.encode (issuing.uuidText e.2.jti)))) := by
  obtain ⟨c, hr, hsigned⟩ : ∃ c, (auth ℤ issuing).replay
      ((auth ℤ issuing).init (.seeded 0 [])) issued = some c ∧
      c.state.signed.map (fun e => (e.2.sub, e.2.jti)) = [(7, 20)] := ⟨_, rfl, rfl⟩
  have hjwt : ∀ p, issuing.jwt p = sampleJws.compact issuing.uuidText p := fun _ => rfl
  have hbase64 : readingEdge.InvertsBase64 := EdgeAuth.decodingEdge_inverts
  refine ⟨c, hr, hsigned, fun e he => ?_⟩
  obtain ⟨hbrowser, -, hgateway, -⟩ := issued_token_read hjwt sample_ascii hbase64
    readingEdge_readsObjects (by decide) (.of_replay .init hr) e he
  exact ⟨hbrowser, hgateway⟩

end BoltBet
