import Mathlib
import Nydus.Lib.Outcome
import Nydus.Lib.Text

/-!
# The `www-authenticate` header of a registry

`RegistryState::parse_auth` (storage/src/backend/registry.rs) reads the challenge a registry
answers with, `<scheme> k1="v1",k2="v2",...`, into a `Basic` or a `Bearer` auth. It takes the
header's text with `to_str().unwrap()`, cuts the scheme off at the first space, the parameters
at every `",`, and each parameter at every `=`; the first piece is the key, the second, trimmed
of white space and quotes, the value.

- On a challenge whose keys are tokens and whose quoted values hold no quote, do not start with a
  comma and do not end in white space, each value comes back up to its first `=`
  (`parseAuth_challenge`, `readValue`). A value without `=` comes back whole; a realm such as
  `a=b` comes back as `a` (`parseAuth_bearer`).
- `HeaderValue` admits obs-text, the bytes `0x80..0xFF`, and `to_str` refuses it: the `unwrap`
  panics on every header that holds one (`parseAuth_panics_of_obs_text`).

`HeaderValue` belongs to the `http` crate and is a parameter (`HeaderValueApi`): its `to_str`,
`from_str` and `from_bytes`, with the three laws of them the results use. `asciiHeaders` is one
implementation that keeps them. Text is a `List Char`. The `HashMap` of the parameters is an
association list in which the newest insertion of a key comes first.
-/

namespace Nydus.Storage.Registry

open Nydus.Lib (Outcome trimMatches splitnTwo splitOnPair)

/-! ## Header values -/

/-- A character `to_str` gives back: a tab or visible ASCII. -/
def isVisibleChar (c : Char) : Bool := c.toNat == 9 || (32 ≤ c.toNat && c.toNat < 127)

/-- What `parse_auth` uses of the `http` crate's `HeaderValue`, and the laws of it the results
rest on. A value holds bytes that `HeaderValue::is_valid` admits: a tab, or any byte from the
space on but DEL, obs-text `0x80..0xFF` included. -/
structure HeaderValueApi where
  Value : Type
  bytes : Value → List UInt8
  /-- `HeaderValue::to_str`. -/
  toStr : Value → Option (List Char)
  /-- `HeaderValue::from_str`. -/
  fromStr : List Char → Option Value
  /-- `HeaderValue::from_bytes`. -/
  fromBytes : List UInt8 → Option Value
  /-- `to_str` accepts visible ASCII only, so it refuses a value that holds obs-text. -/
  toStr_obs : ∀ h, (∃ b ∈ bytes h, 128 ≤ b.toNat) → toStr h = none
  /-- A text of visible ASCII is a value, and `to_str` gives it back. -/
  fromStr_visible : ∀ s : List Char, s.all isVisibleChar = true →
    ∃ h, fromStr s = some h ∧ toStr h = some s
  /-- `from_bytes` takes every byte string that `is_valid` admits. -/
  fromBytes_valid : ∀ bs : List UInt8, (∀ b ∈ bs, b.toNat = 9 ∨ 32 ≤ b.toNat ∧ b.toNat ≠ 127) →
    ∃ h, fromBytes bs = some h ∧ bytes h = bs

/-! ## Text -/

/-- `char::is_whitespace`: the characters of Unicode's `White_Space`. -/
def isWhitespace (c : Char) : Bool :=
  let n := c.toNat
  (9 ≤ n && n ≤ 13) || n == 0x20 || n == 0x85 || n == 0xA0 || n == 0x1680 ||
    (0x2000 ≤ n && n ≤ 0x200A) || n == 0x2028 || n == 0x2029 || n == 0x202F || n == 0x205F ||
    n == 0x3000

/-- `str::trim`. -/
def trim (s : List Char) : List Char := trimMatches isWhitespace s

/-- The double quote. -/
def quote : Char := Char.ofNat 0x22

/-! ## `parse_auth` -/

/-- `BasicAuth`. -/
structure BasicAuth where
  realm : List Char

/-- `BearerAuth`, over a type of header values. -/
structure BearerAuth (V : Type) where
  realm : List Char
  service : List Char
  scope : List Char
  header : Option V

/-- `Auth`. -/
inductive Auth (V : Type) where
  | basic (auth : BasicAuth)
  | bearer (auth : BearerAuth V)

section Parse

variable (A : HeaderValueApi)

/-- The body of the loop of `parse_auth`: a pair cut at every `=`, its first piece trimmed as the
key and its second trimmed of white space and then of quotes as the value; `None` without `=`. -/
def parsePair (pair : List Char) : Option (List Char × List Char) :=
  match (trim pair).splitOn '=' with
  | key :: value :: _ => some (trim key, trimMatches (· == quote) (trim value))
  | _ => none

/-- The loop of `parse_auth`: every pair inserted into the map `paras`. -/
def parseParas :
    List (List Char) → List (List Char × List Char) → Option (List (List Char × List Char))
  | [], paras => some paras
  | pair :: pairs, paras =>
    match parsePair pair with
    | some (key, value) => parseParas pairs ((key, value) :: paras)
    | none => none

/-- The header of a bearer auth: `HeaderValue::from_str(&format!("Basic {}", auth)).unwrap()`. -/
def basicHeader : Option (List Char) → Outcome (Option A.Value)
  | none => .ok none
  | some auth =>
    match A.fromStr ("Basic ".toList ++ auth) with
    | some header => .ok (some header)
    | none => Outcome.panic "called `Result::unwrap()` on an `Err` value"

/-- The `match scheme` of `parse_auth`, over the parameters it read. -/
def authOf (scheme : List Char) (paras : List (List Char × List Char))
    (auth : Option (List Char)) : Outcome (Option (Auth A.Value)) :=
  if scheme = "Basic".toList then
    .ok (some (.basic ⟨(paras.lookup "realm".toList).getD []⟩))
  else if scheme = "Bearer".toList then
    match paras.lookup "realm".toList, paras.lookup "service".toList,
      paras.lookup "scope".toList with
    | some realm, some service, some scope => do
      let header ← basicHeader A auth
      pure (some (.bearer ⟨realm, service, scope, header⟩))
    | _, _, _ => .ok none
  else .ok none

/-- `RegistryState::parse_auth`. -/
def parseAuth (source : A.Value) (auth : Option (List Char)) : Outcome (Option (Auth A.Value)) :=
  match A.toStr source with
  | none => Outcome.panic "called `Result::unwrap()` on an `Err` value"
  | some source =>
    match splitnTwo ' ' source with
    | scheme :: pairs :: _ =>
      match parseParas (splitOnPair quote ',' (trim pairs)) [] with
      | some paras => authOf A (trim scheme) paras auth
      | none => .ok none
    | _ => .ok none

theorem parseAuth_panics_of_obs_text (h : A.Value) (auth : Option (List Char))
    (hb : ∃ b ∈ A.bytes h, 128 ≤ b.toNat) :
    parseAuth A h auth = Outcome.panic "called `Result::unwrap()` on an `Err` value" := by
  rw [parseAuth, A.toStr_obs h hb]

/-! ## Challenges `<scheme> k1="v1",k2="v2",...` -/

/-- A token: visible characters, none of them white space, `=`, a quote or a comma. -/
def isToken (k : List Char) : Bool :=
  !k.isEmpty &&
    k.all fun c => isVisibleChar c && !isWhitespace c && c != '=' && c != quote && c != ','

/-- A quoted value: visible characters and no quote, not starting with a comma and not ending in
white space. -/
def isPlainValue (v : List Char) : Bool :=
  v.all (fun c => isVisibleChar c && c != quote) && v.head? != some ',' &&
    !(v.getLast?.any isWhitespace)

/-- `k="v"`. -/
def param (kv : List Char × List Char) : List Char := kv.1 ++ '=' :: quote :: kv.2 ++ [quote]

/-- The challenge `<scheme> k1="v1",k2="v2",...`. -/
def challenge (scheme : List Char) (ps : List (List Char × List Char)) : List Char :=
  scheme ++ ' ' :: [','].intercalate (ps.map param)

/-- What `parse_auth` reads of a quoted value `v`: `v` up to its first `=`, without the white space
before that `=`. -/
def readValue (v : List Char) : List Char := (v.takeWhile (· != '=')).rdropWhile isWhitespace

theorem isToken_iff {k : List Char} :
    isToken k = true ↔ k ≠ [] ∧ ∀ c ∈ k, isVisibleChar c = true ∧ isWhitespace c = false ∧
      c ≠ '=' ∧ c ≠ quote ∧ c ≠ ',' := by
  simp [isToken, and_assoc]

theorem isPlainValue_iff {v : List Char} :
    isPlainValue v = true ↔ (∀ c ∈ v, isVisibleChar c = true ∧ c ≠ quote) ∧
      v.head? ≠ some ',' ∧ ∀ c ∈ v.getLast?, isWhitespace c = false := by
  cases hl : v.getLast? <;> simp [isPlainValue, hl, and_assoc]

@[simp] theorem isWhitespace_quote : isWhitespace quote = false := by decide
@[simp] theorem quote_ne_eq : quote ≠ '=' := by decide
@[simp] theorem quote_ne_comma : quote ≠ ',' := by decide

theorem quote_not_mem_of_isToken {k : List Char} (hk : isToken k = true) : quote ∉ k :=
  fun h => ((isToken_iff.mp hk).2 _ h).2.2.2.1 rfl

theorem quote_not_mem_of_isPlainValue {v : List Char} (hv : isPlainValue v = true) : quote ∉ v :=
  fun h => ((isPlainValue_iff.mp hv).1 _ h).2 rfl

/-! ### Reading one parameter -/

theorem trim_token_append {k x : List Char} (hk : isToken k = true)
    (hx : ∀ c ∈ x.getLast?, isWhitespace c = false) : trim (k ++ x) = k ++ x := by
  obtain ⟨hne, hc⟩ := isToken_iff.mp hk
  refine Nydus.Lib.trimMatches_eq_self (fun c h => ?_) (fun c h => ?_)
  · obtain ⟨d, k', rfl⟩ := List.exists_cons_of_ne_nil hne
    simp only [List.cons_append, List.head?_cons, Option.mem_def, Option.some.injEq] at h
    exact (hc c (h ▸ List.mem_cons_self)).2.1
  · rw [List.getLast?_append] at h
    cases hl : x.getLast? with
    | none =>
      rw [hl, Option.none_or] at h
      exact (hc c (List.mem_of_mem_getLast? h)).2.1
    | some d =>
      rw [hl, Option.some_or, Option.mem_def, Option.some.injEq] at h
      exact h ▸ hx d hl

theorem trim_token {k : List Char} (hk : isToken k = true) : trim k = k := by
  simpa using trim_token_append (x := []) hk (by simp)

theorem trimMatches_quote_of_not_mem {w : List Char} (hw : quote ∉ w) :
    trimMatches (· == quote) w = w := by
  refine Nydus.Lib.trimMatches_eq_self (fun c h => ?_) (fun c h => ?_)
  · exact beq_eq_false_iff_ne.mpr fun he => hw (he ▸ List.mem_of_mem_head? h)
  · exact beq_eq_false_iff_ne.mpr fun he => hw (he ▸ List.mem_of_mem_getLast? h)

theorem value_quote_cons {w : List Char} (hw : quote ∉ w) :
    trimMatches (· == quote) (trim (quote :: w)) = w.rdropWhile isWhitespace := by
  rw [trim, Nydus.Lib.trimMatches_cons_of_neg isWhitespace_quote,
    Nydus.Lib.trimMatches_cons_of_pos (by simp),
    trimMatches_quote_of_not_mem fun h => hw ((List.rdropWhile_prefix _ _).subset h)]

theorem parsePair_eq {k x : List Char} (hk : isToken k = true)
    (hx : trim (k ++ '=' :: x) = k ++ '=' :: x) :
    parsePair (k ++ '=' :: x) =
      some (k, trimMatches (· == quote) (trim (x.takeWhile (· != '=')))) := by
  have hke : '=' ∉ k := fun h => ((isToken_iff.mp hk).2 _ h).2.2.1 rfl
  obtain ⟨rest, hrest⟩ := List.head?_eq_some_iff.mp (Nydus.Lib.splitOn_head? '=' x)
  rw [parsePair, hx, List.splitOn_append_cons_self_of_not_mem hke, hrest]
  dsimp only
  rw [trim_token hk]

theorem rdropWhile_isWhitespace_eq_self {v : List Char}
    (hl : ∀ c ∈ v.getLast?, isWhitespace c = false) : v.rdropWhile isWhitespace = v := by
  refine List.rdropWhile_eq_self_iff.mpr fun hne => ?_
  simp [hl _ (List.getLast?_eq_some_getLast hne)]

theorem readValue_of_not_mem {v : List Char} (he : '=' ∉ v)
    (hl : ∀ c ∈ v.getLast?, isWhitespace c = false) : readValue v = v := by
  have hw : v.takeWhile (· != '=') = v :=
    List.takeWhile_eq_self_iff.mpr fun c hc => bne_iff_ne.mpr fun h => he (h ▸ hc)
  rw [readValue, hw, rdropWhile_isWhitespace_eq_self hl]

theorem readValue_append_eq {a b : List Char} (he : '=' ∉ a) :
    readValue (a ++ '=' :: b) = a.rdropWhile isWhitespace := by
  have ha : ∀ c ∈ a, (c != '=') = true := fun c hc => bne_iff_ne.mpr fun h => he (h ▸ hc)
  rw [readValue, List.takeWhile_append_of_pos ha, List.takeWhile_cons_of_neg (by simp),
    List.append_nil]

theorem parsePair_piece {k v : List Char} (hk : isToken k = true) (hv : isPlainValue v = true) :
    parsePair (k ++ '=' :: quote :: v) = some (k, readValue v) := by
  have hvl := (isPlainValue_iff.mp hv).2.2
  have htrim : trim (k ++ '=' :: quote :: v) = k ++ '=' :: quote :: v := by
    refine trim_token_append hk fun c h => ?_
    rw [show '=' :: quote :: v = ['=', quote] ++ v from rfl, List.getLast?_append] at h
    cases hl : v.getLast? with
    | none => simp [hl] at h; exact h ▸ isWhitespace_quote
    | some d => simp [hl] at h; exact h ▸ hvl d hl
  rw [parsePair_eq hk htrim, List.takeWhile_cons_of_pos (by simp),
    value_quote_cons fun h => quote_not_mem_of_isPlainValue hv ((List.takeWhile_prefix _).subset h)]
  rfl

theorem parsePair_param {k v : List Char} (hk : isToken k = true) (hv : isPlainValue v = true) :
    parsePair (param (k, v)) = some (k, readValue v) := by
  have hq := quote_not_mem_of_isPlainValue hv
  have hparam : param (k, v) = k ++ '=' :: ((quote :: v) ++ [quote]) := by simp [param]
  have htrim : trim (k ++ '=' :: ((quote :: v) ++ [quote])) = k ++ '=' :: ((quote :: v) ++ [quote]) :=
    trim_token_append hk (by rw [← List.cons_append, List.getLast?_concat]; simp)
  rw [hparam, parsePair_eq hk htrim, List.cons_append, List.takeWhile_cons_of_pos (by simp)]
  rcases Nydus.Lib.takeWhile_or_cut (· != '=') v with hall | ⟨c, r, hc, hcut⟩
  · -- no `=`: the closing quote stays until the quotes are trimmed
    have he : '=' ∉ v := fun h => by simpa using hall _ h
    have hends : trim ((quote :: v) ++ [quote]) = (quote :: v) ++ [quote] :=
      Nydus.Lib.trimMatches_eq_self (by simp) (by rw [List.getLast?_concat]; simp)
    rw [List.takeWhile_append_of_pos hall, List.takeWhile_cons_of_pos (by simp), List.takeWhile_nil,
      readValue_of_not_mem he (isPlainValue_iff.mp hv).2.2, ← List.cons_append, hends,
      Nydus.Lib.trimMatches_concat_of_pos (by simp), Nydus.Lib.trimMatches_cons_of_pos (by simp),
      trimMatches_quote_of_not_mem hq]
  · -- the value is cut at its first `=`, before the closing quote
    have hce : c = '=' := by simpa using hc
    have hw : ∀ a ∈ v.takeWhile (· != '='), (a != '=') = true := fun a ha =>
      List.mem_takeWhile_imp (p := (· != '=')) ha
    have hwe : '=' ∉ v.takeWhile (· != '=') := fun h => by simpa using hw _ h
    rw [hcut, hce, List.append_assoc, List.cons_append, List.takeWhile_append_of_pos hw,
      List.takeWhile_cons_of_neg (by simp), List.append_nil, readValue_append_eq hwe,
      value_quote_cons fun h => hq ((List.takeWhile_prefix _).subset h)]

/-! ### Reading the parameters -/

theorem splitOnPair_piece {k v : List Char} (hk : quote ∉ k) (hv : quote ∉ v)
    (hh : v.head? ≠ some ',') (s : List Char) :
    splitOnPair quote ',' (k ++ '=' :: quote :: v ++ quote :: s) =
      (splitOnPair quote ',' (quote :: s)).modifyHead ((k ++ '=' :: quote :: v) ++ ·) := by
  have hk' : quote ∉ k ++ ['='] := by simp [hk]
  rw [show k ++ '=' :: quote :: v ++ quote :: s = (k ++ ['=']) ++ quote :: (v ++ quote :: s) by simp,
    Nydus.Lib.splitOnPair_append_of_not_mem hk']
  -- the opening quote is followed by the value's first character, or by the closing quote
  cases v with
  | nil =>
    rw [List.nil_append, Nydus.Lib.splitOnPair_cons_cons_of_ne quote_ne_comma,
      List.modifyHead_modifyHead]
    congr 1
    funext x
    simp
  | cons y v =>
    have hy : y ≠ ',' := fun h => hh (by simp [h])
    rw [List.cons_append, Nydus.Lib.splitOnPair_cons_cons_of_ne hy, ← List.cons_append,
      Nydus.Lib.splitOnPair_append_of_not_mem hv, List.modifyHead_modifyHead,
      List.modifyHead_modifyHead]
    congr 1
    funext x
    simp

theorem splitOnPair_param {k v : List Char} (hk : quote ∉ k) (hv : quote ∉ v)
    (hh : v.head? ≠ some ',') : splitOnPair quote ',' (param (k, v)) = [param (k, v)] := by
  rw [show param (k, v) = k ++ '=' :: quote :: v ++ [quote] from rfl, splitOnPair_piece hk hv hh]
  rfl

theorem splitOnPair_param_comma {k v : List Char} (hk : quote ∉ k) (hv : quote ∉ v)
    (hh : v.head? ≠ some ',') (rest : List Char) :
    splitOnPair quote ',' (param (k, v) ++ ',' :: rest) =
      (k ++ '=' :: quote :: v) :: splitOnPair quote ',' rest := by
  rw [show param (k, v) ++ ',' :: rest = k ++ '=' :: quote :: v ++ quote :: ',' :: rest by
      simp [param],
    splitOnPair_piece hk hv hh, Nydus.Lib.splitOnPair_sep]
  simp

theorem parseParas_params {ps : List (List Char × List Char)} (hps : ps ≠ [])
    (hk : ∀ kv ∈ ps, isToken kv.1 = true) (hv : ∀ kv ∈ ps, isPlainValue kv.2 = true)
    (paras : List (List Char × List Char)) :
    parseParas (splitOnPair quote ',' ([','].intercalate (ps.map param))) paras =
      some ((ps.map fun kv => (kv.1, readValue kv.2)).reverse ++ paras) := by
  induction ps generalizing paras with
  | nil => exact absurd rfl hps
  | cons kv ps ih =>
    obtain ⟨k, v⟩ := kv
    have hk1 := hk (k, v) List.mem_cons_self
    have hv1 := hv (k, v) List.mem_cons_self
    have hqk := quote_not_mem_of_isToken hk1
    have hqv := quote_not_mem_of_isPlainValue hv1
    have hh := (isPlainValue_iff.mp hv1).2.1
    -- the last parameter keeps its closing quote; every other one loses it to the separator
    cases ps with
    | nil =>
      rw [List.map_singleton, List.intercalate_singleton, splitOnPair_param hqk hqv hh, parseParas,
        parsePair_param hk1 hv1]
      simp [parseParas]
    | cons kv' ps =>
      rw [List.map_cons, List.map_cons, List.intercalate_cons_cons, List.append_assoc,
        List.singleton_append, ← List.map_cons, splitOnPair_param_comma hqk hqv hh, parseParas,
        parsePair_piece hk1 hv1]
      dsimp only
      rw [ih (List.cons_ne_nil _ _) (fun x hx => hk x (List.mem_cons_of_mem _ hx))
        (fun x hx => hv x (List.mem_cons_of_mem _ hx))]
      simp

/-! ### Reading a whole challenge -/

theorem toNat_lt_of_isVisibleChar {c : Char} (hc : isVisibleChar c = true) : c.toNat < 127 := by
  simp only [isVisibleChar, Bool.or_eq_true, beq_iff_eq, Bool.and_eq_true, decide_eq_true_eq] at hc
  omega

theorem all_param {kv : List Char × List Char} (hk : isToken kv.1 = true)
    (hv : isPlainValue kv.2 = true) : (param kv).all isVisibleChar = true := by
  have hkc := (isToken_iff.mp hk).2
  have hvc := (isPlainValue_iff.mp hv).1
  rw [List.all_eq_true]
  intro c hc
  simp only [param, List.mem_append, List.mem_cons, List.not_mem_nil, or_false] at hc
  rcases hc with (hc | rfl | rfl | hc) | rfl
  · exact (hkc c hc).1
  · decide
  · decide
  · exact (hvc c hc).1
  · decide

theorem all_challenge {scheme : List Char} {ps : List (List Char × List Char)}
    (hs : isToken scheme = true) (hk : ∀ kv ∈ ps, isToken kv.1 = true)
    (hv : ∀ kv ∈ ps, isPlainValue kv.2 = true) : (challenge scheme ps).all isVisibleChar = true := by
  have hscheme : scheme.all isVisibleChar = true :=
    List.all_eq_true.mpr fun c hc => ((isToken_iff.mp hs).2 c hc).1
  have hparams : ([','].intercalate (ps.map param)).all isVisibleChar = true := by
    refine Nydus.Lib.all_intercalate (by decide) fun x hx => ?_
    obtain ⟨kv, hkv, rfl⟩ := List.mem_map.mp hx
    exact all_param (hk kv hkv) (hv kv hkv)
  rw [challenge, List.all_append, List.all_cons, hscheme, hparams,
    show isVisibleChar ' ' = true by decide]
  rfl

theorem getLast?_params {ps : List (List Char × List Char)} (hps : ps ≠ []) :
    ([','].intercalate (ps.map param)).getLast? = some quote := by
  induction ps with
  | nil => exact absurd rfl hps
  | cons kv ps ih =>
    cases ps with
    | nil => rw [List.map_singleton, List.intercalate_singleton, param, List.getLast?_concat]
    | cons kv' ps =>
      rw [List.map_cons, List.map_cons, List.intercalate_cons_cons, ← List.map_cons,
        List.getLast?_append, ih (List.cons_ne_nil _ _)]
      rfl

theorem trim_params {ps : List (List Char × List Char)} (hps : ps ≠ [])
    (hk : ∀ kv ∈ ps, isToken kv.1 = true) :
    trim ([','].intercalate (ps.map param)) = [','].intercalate (ps.map param) := by
  obtain ⟨kv, ps', rfl⟩ := List.exists_cons_of_ne_nil hps
  -- the parameters start with the first key and end in a quote
  obtain ⟨r, hr⟩ : ∃ r, [','].intercalate ((kv :: ps').map param) = kv.1 ++ '=' :: r := by
    cases ps' with
    | nil => exact ⟨quote :: kv.2 ++ [quote], by simp [param]⟩
    | cons kv' ps' =>
      exact ⟨quote :: kv.2 ++ quote :: ',' :: [','].intercalate ((kv' :: ps').map param),
        by simp [param, List.intercalate_cons_cons]⟩
  have hlast := getLast?_params hps
  rw [hr] at hlast ⊢
  refine trim_token_append (hk kv List.mem_cons_self) fun c hc => ?_
  rw [List.getLast?_append, List.getLast?_cons] at hlast
  rw [List.getLast?_cons, Option.mem_def, Option.some.injEq] at hc
  simp only [Option.some_or, Option.some.injEq] at hlast
  rw [← hc, hlast]
  exact isWhitespace_quote

/-- `parse_auth` on a challenge: the scheme, and the map of its parameters as `readValue` reads
them, go to the `match scheme`. -/
theorem parseAuth_challenge {scheme : List Char} {ps : List (List Char × List Char)}
    (hs : isToken scheme = true) (hps : ps ≠ []) (hk : ∀ kv ∈ ps, isToken kv.1 = true)
    (hv : ∀ kv ∈ ps, isPlainValue kv.2 = true) (auth : Option (List Char)) :
    ∃ h, A.fromStr (challenge scheme ps) = some h ∧
      parseAuth A h auth = authOf A scheme (ps.map fun kv => (kv.1, readValue kv.2)).reverse auth := by
  obtain ⟨h, hfrom, hto⟩ := A.fromStr_visible _ (all_challenge hs hk hv)
  refine ⟨h, hfrom, ?_⟩
  have hspace : ' ' ∉ scheme := fun hm => by
    simpa using (show isWhitespace ' ' = true by decide).symm.trans ((isToken_iff.mp hs).2 _ hm).2.1
  rw [parseAuth, hto, challenge]
  dsimp only
  rw [Nydus.Lib.splitnTwo_append hspace]
  dsimp only
  rw [trim_params hps hk, parseParas_params hps hk hv, trim_token hs, List.append_nil]

/-- A Bearer challenge with a realm, a service and a scope: each comes back as `readValue`
reads it. -/
theorem parseAuth_bearer {realm service scope : List Char} (hr : isPlainValue realm = true)
    (hs : isPlainValue service = true) (hc : isPlainValue scope = true)
    (auth : Option (List Char)) :
    ∃ h, A.fromStr (challenge "Bearer".toList [("realm".toList, realm),
        ("service".toList, service), ("scope".toList, scope)]) = some h ∧
      parseAuth A h auth = (do
        let header ← basicHeader A auth
        pure (some (.bearer ⟨readValue realm, readValue service, readValue scope, header⟩))) := by
  have hk : ∀ kv ∈ [("realm".toList, realm), ("service".toList, service), ("scope".toList, scope)],
      isToken kv.1 = true := by
    intro kv hkv
    simp only [List.mem_cons, List.not_mem_nil, or_false] at hkv
    rcases hkv with rfl | rfl | rfl <;> dsimp only <;> decide
  have hv : ∀ kv ∈ [("realm".toList, realm), ("service".toList, service), ("scope".toList, scope)],
      isPlainValue kv.2 = true := by
    intro kv hkv
    simp only [List.mem_cons, List.not_mem_nil, or_false] at hkv
    rcases hkv with rfl | rfl | rfl <;> assumption
  obtain ⟨h, hfrom, hparse⟩ :=
    parseAuth_challenge A (show isToken "Bearer".toList = true by decide) (List.cons_ne_nil _ _) hk hv
      auth
  refine ⟨h, hfrom, ?_⟩
  rw [hparse, authOf, if_neg (by decide), if_pos rfl]
  -- the three keys differ, so each lookup finds its own value
  have h1 : ("realm".toList == "scope".toList) = false := by decide
  have h2 : ("realm".toList == "service".toList) = false := by decide
  have h3 : ("service".toList == "scope".toList) = false := by decide
  simp only [List.map_cons, List.map_nil, List.reverse_cons, List.reverse_nil, List.nil_append,
    List.cons_append, List.lookup_cons, h1, h2, h3, beq_self_eq_true]

/-- For every implementation of `HeaderValue` that keeps its laws, a Bearer realm `a=b` comes
back as `a`, and `parse_auth` panics on every header that holds obs-text. -/
theorem parseAuth_truncates_or_panics :
    (∀ (a b service scope : List Char) (auth : Option (List Char)),
      '=' ∉ a → isPlainValue a = true → isPlainValue (a ++ '=' :: b) = true →
      '=' ∉ service → isPlainValue service = true → '=' ∉ scope → isPlainValue scope = true →
      ∃ h, A.fromStr (challenge "Bearer".toList [("realm".toList, a ++ '=' :: b),
          ("service".toList, service), ("scope".toList, scope)]) = some h ∧
        parseAuth A h auth = (do
          let header ← basicHeader A auth
          pure (some (.bearer ⟨a, service, scope, header⟩)))) ∧
    (∀ (bs : List UInt8) (auth : Option (List Char)),
      (∀ b ∈ bs, b.toNat = 9 ∨ 32 ≤ b.toNat ∧ b.toNat ≠ 127) → (∃ b ∈ bs, 128 ≤ b.toNat) →
      ∃ h, A.fromBytes bs = some h ∧
        parseAuth A h auth = Outcome.panic "called `Result::unwrap()` on an `Err` value") := by
  refine ⟨fun a b service scope auth hae ha hab hse hs hce hc => ?_, fun bs auth hvalid hobs => ?_⟩
  · obtain ⟨h, hfrom, hparse⟩ := parseAuth_bearer A hab hs hc auth
    refine ⟨h, hfrom, ?_⟩
    rw [hparse, readValue_append_eq hae,
      rdropWhile_isWhitespace_eq_self (isPlainValue_iff.mp ha).2.2,
      readValue_of_not_mem hse (isPlainValue_iff.mp hs).2.2,
      readValue_of_not_mem hce (isPlainValue_iff.mp hc).2.2]
  · -- `from_bytes` keeps the obs-text byte, and `to_str` refuses it
    obtain ⟨h, hfrom, hbytes⟩ := A.fromBytes_valid bs hvalid
    exact ⟨h, hfrom, parseAuth_panics_of_obs_text A h auth (hbytes ▸ hobs)⟩

end Parse

/-! ## Header values as their bytes -/

theorem toNat_ofNat_of_isVisibleChar {c : Char} (hc : isVisibleChar c = true) :
    (UInt8.ofNat c.toNat).toNat = c.toNat := by
  have := toNat_lt_of_isVisibleChar hc
  rw [UInt8.toNat_ofNat', Nat.mod_eq_of_lt (by omega)]

/-- The plainest implementation of the laws: a value is its bytes, `to_str` reads visible ASCII
byte by byte, `from_str` takes a text of visible ASCII and `from_bytes` any bytes. -/
def asciiHeaders : HeaderValueApi where
  Value := List UInt8
  bytes := id
  toStr bs := if bs.all (·.toNat < 128) then some (bs.map fun b => Char.ofNat b.toNat) else none
  fromStr s := if s.all isVisibleChar then some (s.map fun c => UInt8.ofNat c.toNat) else none
  fromBytes bs := some bs
  toStr_obs bs hb := by
    obtain ⟨b, hb, hge⟩ := hb
    have hall : bs.all (·.toNat < 128) = false :=
      List.all_eq_false.mpr ⟨b, hb, by simpa using hge⟩
    simp [hall]
  fromStr_visible s hs := by
    have hvis := List.all_eq_true.mp hs
    refine ⟨_, if_pos hs, ?_⟩
    have hall : (s.map fun c => UInt8.ofNat c.toNat).all (·.toNat < 128) = true := by
      rw [List.all_map, List.all_eq_true]
      intro c hc
      have := toNat_lt_of_isVisibleChar (hvis c hc)
      simp only [Function.comp_apply, toNat_ofNat_of_isVisibleChar (hvis c hc), decide_eq_true_eq]
      omega
    rw [if_pos hall, List.map_map]
    congr 1
    conv_rhs => rw [← List.map_id s]
    refine List.map_congr_left fun c hc => ?_
    simp [toNat_ofNat_of_isVisibleChar (hvis c hc)]
  fromBytes_valid bs _ := ⟨bs, rfl, rfl⟩

theorem parseAuth_truncates_or_panics_realm_a_b :
    (∃ h, asciiHeaders.fromStr (challenge "Bearer".toList [("realm".toList,
        "a".toList ++ '=' :: "b".toList), ("service".toList, "s".toList),
        ("scope".toList, "c".toList)]) = some h ∧
      parseAuth asciiHeaders h none = .ok (some (.bearer ⟨"a".toList, "s".toList, "c".toList, none⟩))) ∧
    ∃ h, asciiHeaders.fromBytes [0x80] = some h ∧
      parseAuth asciiHeaders h none = Outcome.panic "called `Result::unwrap()` on an `Err` value" :=
  ⟨(parseAuth_truncates_or_panics asciiHeaders).1 "a".toList "b".toList "s".toList "c".toList none
      (by decide) (by decide) (by decide) (by decide) (by decide) (by decide) (by decide),
    (parseAuth_truncates_or_panics asciiHeaders).2 [0x80] none (by simp)
      ⟨0x80, List.mem_singleton_self _, by decide⟩⟩

end Nydus.Storage.Registry
