import BoltBet.Edge.Token
import BoltBet.Text.Base64

/-!
# The payload of a token

`base64url_decode` undoes the encoding of a token's segments, so `extract_jti` reads the claim that
was encoded.

* `InvertsBase64`: `ngx.decode_base64` reads standard base64 back.
* `padded_encode`: a segment in the standard alphabet, padded, is standard base64, whatever the
  number of its bytes.
* **`base64url_round_trip`**: every byte string is read back. Of three pieces joined by dots,
  `extract_jti` answers the claim of the second exactly when the others are not empty and the
  claim is not `false`, which the script takes for a missing one.
-/

namespace BoltBet

/-- `ngx.decode_base64` reads standard base64 back. -/
def Openresty.InvertsBase64 {T : Type} (N : Openresty T) : Prop :=
  ∀ bytes, N.decodeBase64 (Base64.standard.encodePadded 61 bytes) = some bytes

/-- The text of a JSON object with the claim `jti`, as `cjson.decode` reads it. -/
structure Openresty.HasJti {T : Type} (N : Openresty T) (json : LuaString) (jti : LuaValue) :
    Prop where
  text : json ≠ []
  decode : ∃ get, N.cjsonDecode json = .ok (.table get) ∧ get (lua "jti") = jti
  given : jti ≠ .nil

namespace EdgeAuth

variable {T : Type} {N : Openresty T}

/-! ## The decoder -/

/-- The substitutions turn a digit of base64url into the one of base64. -/
theorem standard_write (n : Fin 64) : Base64.standard.write n =
    if Base64.url.write n = 45 then 43
    else if Base64.url.write n = 95 then 47
    else Base64.url.write n := by
  revert n
  decide

theorem isBase64url_write (n : Fin 64) : isBase64url (Base64.url.write n) = true := by
  revert n
  decide

/-- What is encoded is a segment. -/
theorem segment_encode {bytes : LuaString} (h : bytes ≠ []) :
    Segment (Base64.url.encode bytes) := by
  constructor
  · intro hnil
    have hlen := Base64.length_sextets bytes
    have hpos := List.length_pos_iff.mpr h
    rw [List.map_eq_nil_iff.mp hnil, List.length_nil] at hlen
    omega
  · intro b hb
    obtain ⟨n, -, rfl⟩ := List.mem_map.mp hb
    exact isBase64url_write n

/-- **Padded for `ngx.decode_base64`, an encoded segment is standard base64.** -/
theorem padded_encode (bytes : LuaString) :
    padded (Base64.url.encode bytes) = Base64.standard.encodePadded 61 bytes := by
  have hdigits :
      (Base64.url.encode bytes).map (fun b => if b = 45 then 43 else if b = 95 then 47 else b) =
        Base64.standard.encode bytes := by
    unfold Base64.Alphabet.encode
    rw [List.map_map]
    exact List.map_congr_left fun n _ => (standard_write n).symm
  have hlen : (Base64.url.encode bytes).length = (4 * bytes.length + 2) / 3 := by
    unfold Base64.Alphabet.encode
    rw [List.length_map, Base64.length_sextets]
  unfold padded Base64.Alphabet.encodePadded
  rw [hdigits, hlen]
  congr 1
  -- one byte at the end leaves two digits, two bytes leave three
  obtain h | h | h : bytes.length % 3 = 0 ∨ bytes.length % 3 = 1 ∨ bytes.length % 3 = 2 := by omega
  · have hlast : (4 * bytes.length + 2) / 3 % 4 = 0 := by omega
    rw [h, hlast]
    rfl
  · have hlast : (4 * bytes.length + 2) / 3 % 4 = 2 := by omega
    rw [h, hlast]
    rfl
  · have hlast : (4 * bytes.length + 2) / 3 % 4 = 3 := by omega
    rw [h, hlast]
    rfl

/-- `base64url_decode` reads back what was encoded. -/
theorem base64urlDecode_encode (hN : N.InvertsBase64) (bytes : LuaString) :
    base64urlDecode N (Base64.url.encode bytes) = some bytes := by
  rw [base64urlDecode_eq, padded_encode, hN]

/-! ## The pieces -/

/-- Three pieces joined by dots. -/
def joined (header payload signature : LuaString) : LuaString :=
  header ++ 46 :: (payload ++ 46 :: signature)

/-- Without a dot there is one piece, or none. -/
theorem gmatchParts_piece {a : LuaString} (ha : 46 ∉ a) :
    gmatchParts a = [a].filter (· ≠ []) := by
  have hdot : ∀ b ∈ a, (b == 46) = false := fun b hb => beq_false_of_ne fun h => ha (h ▸ hb)
  unfold gmatchParts
  rw [List.splitOn_eq_splitOnP, List.splitOnP_eq_singleton hdot]

/-- The empty pieces are skipped. -/
theorem gmatchParts_joined {header payload signature : LuaString} (hheader : 46 ∉ header)
    (hpayload : 46 ∉ payload) (hsignature : 46 ∉ signature) :
    gmatchParts (joined header payload signature) =
      [header, payload, signature].filter (· ≠ []) := by
  unfold joined
  rw [gmatchParts_dot hheader, gmatchParts_dot hpayload, gmatchParts_piece hsignature,
    ← List.filter_append, ← List.filter_append]
  rfl

/-- A token that is not three pieces is refused. -/
theorem extractJti_malformed {token : LuaString} (h : (gmatchParts token).length ≠ 3) :
    ∃ e, extractJti N token = .ok (.error e) := by
  unfold extractJti
  split
  · rename_i hparts
    exact absurd (congrArg List.length hparts) h
  · exact ⟨_, rfl⟩

/-- With an empty piece there are no three. -/
theorem extractJti_empty {header payload signature : LuaString} (hheader : 46 ∉ header)
    (hpayload : 46 ∉ payload) (hsignature : 46 ∉ signature)
    (hempty : header = [] ∨ signature = []) :
    ∃ e, extractJti N (joined header payload signature) = .ok (.error e) := by
  have hlen : (gmatchParts (joined header payload signature)).length < 3 := by
    rw [gmatchParts_joined hheader hpayload hsignature]
    refine List.length_filter_lt_length_iff_exists.mpr ⟨[], ?_, by simp⟩
    rcases hempty with rfl | rfl
    · exact List.mem_cons_self
    · simp
  exact extractJti_malformed hlen.ne

/-- `extract_jti` answers the claim, unless it is `false`. -/
theorem extractJti_hasJti {token a part c json : LuaString} {jti : LuaValue}
    (hparts : gmatchParts token = [a, part, c]) (hbytes : base64urlDecode N part = some json)
    (hjson : N.HasJti json jti) :
    extractJti N token = .ok (.ok jti) ↔ jti ≠ .boolean false := by
  obtain ⟨get, hdecode, hget⟩ := hjson.decode
  have hread : extractJti N token =
      .ok (if jti.truthy then .ok jti else .error (lua "jti claim missing from token")) := by
    rw [extractJti_payload hparts hbytes hdecode]
    simp only [LuaValue.truthy, if_true, LuaValue.index, Except.map, hget]
  rw [hread]
  cases jti with
  | nil => exact absurd rfl hjson.given
  | boolean b => cases b <;> simp [LuaValue.truthy]
  | _ => simp [LuaValue.truthy]

/-- **The decoder inverts the encoding**, so of three pieces joined by dots `extract_jti` answers
exactly the claim that the second one encodes, unless it is `false` or another piece is empty. -/
theorem base64url_round_trip (hN : N.InvertsBase64) :
    (∀ bytes, base64urlDecode N (Base64.url.encode bytes) = some bytes) ∧
    ∀ {header json signature : LuaString} {jti : LuaValue}, 46 ∉ header → 46 ∉ signature →
      N.HasJti json jti →
      (extractJti N (joined header (Base64.url.encode json) signature) = .ok (.ok jti) ↔
        header ≠ [] ∧ signature ≠ [] ∧ jti ≠ .boolean false) := by
  refine ⟨base64urlDecode_encode hN, fun {header json signature jti} hheader hsignature hjson => ?_⟩
  have hsegment := segment_encode hjson.text
  by_cases hempty : header = [] ∨ signature = []
  · obtain ⟨e, he⟩ := extractJti_empty (N := N) hheader hsegment.not_mem_dot hsignature hempty
    refine iff_of_false (fun hread => absurd (hread.symm.trans he) (by simp)) fun h => ?_
    exact hempty.elim h.1 h.2.1
  · obtain ⟨hh, hs⟩ := not_or.mp hempty
    have hparts := gmatchParts_joined hheader hsegment.not_mem_dot hsignature
    have hall : [header, Base64.url.encode json, signature].filter (· ≠ []) =
        [header, Base64.url.encode json, signature] := by
      simp [hh, hs, hsegment.1]
    rw [extractJti_hasJti (hparts.trans hall) (base64urlDecode_encode hN json) hjson]
    exact ⟨fun hjti => ⟨hh, hs, hjti⟩, fun h => h.2.2⟩

/-! ## Small runs -/

/-- The claims of a token whose `jti` is `false`. -/
def falseClaims : LuaString := lua "\x7b\"jti\":false\x7d"

/-- Libraries with a decoder of base64. -/
def decodingEdge : Openresty ℤ :=
  { sampleEdge with
    decodeBase64 := Base64.standard.decodePadded 61
    cjsonDecode := fun s =>
      if s = falseClaims then
        .ok (.table fun key => if key = lua "jti" then .boolean false else .nil)
      else jsonDecode s }

theorem decodingEdge_inverts : decodingEdge.InvertsBase64 :=
  Base64.standard.decodePadded_encodePadded (by decide)

/-- The encoding of these claims. -/
example : Base64.url.encode (lua claims7) = lua part7 := by decide +kernel

theorem claims7_hasJti : decodingEdge.HasJti (lua claims7) (.string (lua "1")) where
  text := by decide
  decode := ⟨_, rfl, rfl⟩
  given := by simp

theorem falseClaims_hasJti : decodingEdge.HasJti falseClaims (.boolean false) where
  text := by decide
  decode := ⟨_, rfl, rfl⟩
  given := by simp

/-- The token of user 7 is read at the gateway. -/
theorem encoded_claims_read :
    base64urlDecode decodingEdge (Base64.url.encode (lua claims7)) = some (lua claims7) ∧
      extractJti decodingEdge
        (joined (lua "e30") (Base64.url.encode (lua claims7)) (lua "c2ln")) =
        .ok (.ok (.string (lua "1"))) := by
  obtain ⟨hdecode, hread⟩ := base64url_round_trip decodingEdge_inverts
  refine ⟨hdecode _, (hread (by decide) (by decide) claims7_hasJti).mpr ⟨?_, ?_, by simp⟩⟩
  · decide
  · decide

/-- A claim that is `false` is refused as a missing one, and without a signature there are two
pieces. -/
theorem false_jti_missing :
    decodingEdge.InvertsBase64 ∧ decodingEdge.HasJti falseClaims (.boolean false) ∧
    extractJti decodingEdge (joined (lua "e30") (Base64.url.encode falseClaims) (lua "c2ln")) =
      .ok (.error (lua "jti claim missing from token")) ∧
    decodingEdge.HasJti (lua claims7) (.string (lua "1")) ∧
    extractJti decodingEdge (joined (lua "e30") (Base64.url.encode (lua claims7)) []) =
      .ok (.error (lua "malformed JWT: expected 3 parts, got 2")) := by
  refine ⟨decodingEdge_inverts, falseClaims_hasJti, ?_, claims7_hasJti, ?_⟩
  · rfl
  · rfl

end EdgeAuth

end BoltBet
