import Mathlib

/-!
# Prefetch patterns (`core/prefetch.rs`)

`generate_patterns` turns the lines `get_patterns` reads from stdin into the prefetch patterns:
for each line in order it trims the line, drops it when the result is not an absolute path, and
inserts it into an `IndexMap` keyed by path unless it starts with an earlier line. The earlier
lines are compared as they were read, untrimmed: a line read from stdin keeps its newline, which
becomes part of its last path component, so a pattern nested in an earlier one is kept
(`generatePatterns_keeps_nested`). On lines without surrounding whitespace, as in the unit test,
the result is the absolute lines that do not start with an earlier line
(`generatePatterns_of_trimmed`).

Paths follow `std::path` on Unix: `Path::components` splits at `/`, drops empty and `.`
components except a leading `.`, and `starts_with`, `is_absolute` and the equality of `PathBuf`
keys are read off the components.
-/

namespace Nydus.Builder

/-- A component of a Unix path (`std::path::Component` without `Prefix`). -/
inductive Component where
  | rootDir
  | curDir
  | parentDir
  | normal (name : List Char)
  deriving DecidableEq, Repr

/-- `Path::components` of a Unix path. -/
def components (p : String) : List Component :=
  let parts := p.toList.splitOn '/'
  let hasRoot := p.startsWith "/"
  let curDir := !hasRoot && parts.head? == some ['.']
  (if hasRoot then [.rootDir] else []) ++ (if curDir then [.curDir] else []) ++
    parts.filterMap fun s =>
      if s = [] ∨ s = ['.'] then none else if s = ['.', '.'] then some .parentDir else some (.normal s)

/-- `Path::is_absolute` on Unix: the path has a root. -/
def isAbsolute (p : String) : Bool := p.startsWith "/"

/-- `Path::starts_with`: the components of `base` begin those of `p`. -/
def startsWith (p base : String) : Bool := (components base).isPrefixOf (components p)

/-- `char::is_whitespace`: the characters of the Unicode `White_Space` property. -/
def isWhitespace (c : Char) : Bool :=
  let n := c.toNat
  (0x9 ≤ n && n ≤ 0xD) || n == 0x20 || n == 0x85 || n == 0xA0 || n == 0x1680 ||
    (0x2000 ≤ n && n ≤ 0x200A) || n == 0x2028 || n == 0x2029 || n == 0x202F || n == 0x205F ||
    n == 0x3000

/-- `str::trim`. -/
def trim (s : String) : String :=
  String.ofList ((s.toList.dropWhile isWhitespace).reverse.dropWhile isWhitespace).reverse

/-- `IndexMap::insert` of a `PathBuf` key, as the list of keys in order: a key whose components
are those of a key present leaves the map's keys as they are. -/
def insertKey (keys : List String) (k : String) : List String :=
  if keys.any fun k' => components k' == components k then keys else keys ++ [k]

/-- The body of the loop of `generate_patterns` on line `idx`, `file`. -/
def patternStep (input patterns : List String) (line : String × Nat) : List String :=
  let fileTrimmed := trim line.1
  if !isAbsolute fileTrimmed then patterns
  else
    let skip := (input.take line.2).any fun pre => startsWith fileTrimmed pre
    if !skip then insertKey patterns fileTrimmed else patterns

/-- `generate_patterns`, the keys of the map it returns (it always returns `Ok`). -/
def generatePatterns (input : List String) : List String :=
  input.zipIdx.foldl (patternStep input) []

/-! ## What the patterns are -/

/-- A line is kept when, trimmed, it is absolute and does not start with an earlier line,
trimmed. -/
def Keep (input : List String) (line : String × Nat) : Bool :=
  isAbsolute (trim line.1) && !(input.take line.2).any fun pre => startsWith (trim line.1) (trim pre)

/-- The patterns the lines stand for: in order, the trimmed lines that are absolute and neither
equal to nor below an earlier trimmed line. -/
def nonNestedPatterns (input : List String) : List String :=
  (input.zipIdx.filter (Keep input)).map fun line => trim line.1

theorem startsWith_self_of_components {p q : String} (h : components q = components p) :
    startsWith p q = true := by
  rw [startsWith, h, List.isPrefixOf_iff_prefix]

/-- Read from stdin, a line keeps its newline: the earlier line `/a/b` is compared with its
newline, as the component `b\n`, and the pattern `/a/b/c` below it is kept. -/
theorem generatePatterns_keeps_nested :
    generatePatterns ["/a/b\n", "/a/b/c\n"] = ["/a/b", "/a/b/c"] ∧
      startsWith (trim "/a/b/c\n") (trim "/a/b\n") = true := by
  decide +kernel

theorem patternStep_eq {input patterns : List String} {x : String} {n : Nat}
    (hpre : ∀ f ∈ input.take n, trim f = f) (hpat : ∀ k ∈ patterns, k ∈ input.take n) :
    patternStep input patterns (x, n) = if Keep input (x, n) then patterns ++ [trim x] else patterns := by
  have hskip : ((input.take n).any fun p => startsWith (trim x) p) =
      (input.take n).any fun p => startsWith (trim x) (trim p) := by
    rw [Bool.eq_iff_iff, List.any_eq_true, List.any_eq_true]
    exact ⟨fun ⟨p, hp, h⟩ => ⟨p, hp, by rwa [hpre p hp]⟩,
      fun ⟨p, hp, h⟩ => ⟨p, hp, by rwa [← hpre p hp]⟩⟩
  simp only [patternStep, Keep, hskip]
  by_cases habs : isAbsolute (trim x) = true
  · by_cases hs : ((input.take n).any fun p => startsWith (trim x) (trim p)) = true
    · simp [habs, hs]
    · -- no pattern so far has the components of this line: the line would start with it
      have hnew : (patterns.any fun k => components k == components (trim x)) = false := by
        rw [List.any_eq_false]
        intro k hk hck
        apply hs
        rw [List.any_eq_true]
        refine ⟨k, hpat k hk, ?_⟩
        rw [hpre k (hpat k hk)]
        exact startsWith_self_of_components (by simpa using hck)
      simp [habs, hs, insertKey, hnew]
  · simp [habs]

theorem foldl_patternStep {input : List String} (htrim : ∀ f ∈ input, trim f = f) :
    ∀ pre post : List String, input = pre ++ post →
      pre.zipIdx.foldl (patternStep input) [] = (pre.zipIdx.filter (Keep input)).map fun l => trim l.1 := by
  intro pre
  induction pre using List.reverseRecOn with
  | nil => exact fun _ _ => rfl
  | append_singleton pre x ih =>
    intro post hl
    have htake : input.take pre.length = pre := by simp [hl]
    have hpre : ∀ f ∈ pre, trim f = f := fun f hf => htrim f (by simp [hl, hf])
    -- every pattern so far is one of the earlier lines
    have hpat : ∀ k ∈ (pre.zipIdx.filter (Keep input)).map (fun l => trim l.1), k ∈ pre := by
      intro k hk
      simp only [List.mem_map, List.mem_filter] at hk
      obtain ⟨⟨f, i⟩, ⟨hfi, -⟩, rfl⟩ := hk
      have hf : f ∈ pre := List.mem_of_getElem? (List.mem_zipIdx_iff_getElem?.mp hfi)
      rwa [hpre f hf]
    rw [List.zipIdx_append, List.foldl_append, ih (x :: post) (by simp [hl]), List.filter_append,
      List.map_append, Nat.zero_add, List.zipIdx_singleton, List.foldl_cons, List.foldl_nil,
      patternStep_eq (by rw [htake]; exact hpre) (by rw [htake]; exact hpat)]
    split_ifs with hk <;> simp [hk]

/-- On lines without surrounding whitespace, as in the unit test, the patterns are the trimmed
absolute lines that are neither equal to nor below an earlier line. -/
theorem generatePatterns_of_trimmed {input : List String} (htrim : ∀ f ∈ input, trim f = f) :
    generatePatterns input = nonNestedPatterns input :=
  foldl_patternStep htrim input [] (List.append_nil input).symm

end Nydus.Builder
