import BuildScript.Compile.Candidates
import BuildScript.Proofs.Compile.FirstOccurrences
import BuildScript.Proofs.Files.Components
import Mathlib.Data.List.Nodup
import Mathlib.Data.List.TakeDrop
import Mathlib.Data.List.TakeWhile

/-!
# Candidates and their order

A form of a dotted name has its last `k` dots turned into dollar signs, and it is determined by `k`:
each dot that is turned is one dot less. So the number of dots tells the forms of one name apart, and
it also tells where an imported prefix is still intact, which is why resolution may count the dots of
a form instead of comparing prefixes.

`turnDots` says which dots are turned, dot by dot and without cutting the name into segments;
`Turns` is the loop that turns one dot after the other. The forms are both. The candidates are then
the forms of the names that a name may stand for, each candidate at the first place that it has among
them (`KeepsFirst`), so a candidate that several sources give is tried when the first of them is.
-/

namespace BuildScript

/-! ## Turning dots -/

/-- The last `k` dots become dollar signs: those with fewer than `k` dots behind them. -/
def turnDots (k : Nat) : List Char → List Char
  | [] => []
  | c :: cs => (if c = '.' ∧ cs.count '.' < k then '$' else c) :: turnDots k cs

/-- A name with its last `k` dots turned into dollar signs. -/
def withDollars (k : Nat) (name : String) : String := String.ofList (turnDots k name.toList)

/-- The names that a name becomes while its last dot is turned into a dollar sign, as long as there
is a dot. -/
inductive Turns : String → List String → Prop
  | done {name : String} (h : '.' ∉ name.toList) : Turns name [name]
  | turn {front back : String} {forms : List String} (h : '.' ∉ back.toList)
    (rest : Turns (front ++ "$" ++ back) forms) :
    Turns (front ++ "." ++ back) ((front ++ "." ++ back) :: forms)

section

variable {k : Nat} {cs : List Char}

theorem turnDots_append (k : Nat) (front back : List Char) :
    turnDots k (front ++ back) = turnDots (k - back.count '.') front ++ turnDots k back := by
  induction front with
  | nil => rfl
  | cons c front ih =>
    have hcount : (front ++ back).count '.' < k ↔ front.count '.' < k - back.count '.' := by
      rw [List.count_append]
      omega
    rw [List.cons_append, turnDots, turnDots, ih]
    simp only [hcount, List.cons_append]

@[simp] theorem turnDots_zero (cs : List Char) : turnDots 0 cs = cs := by
  induction cs with
  | nil => rfl
  | cons c cs ih => simp [turnDots, ih]

@[simp] theorem length_turnDots (k : Nat) (cs : List Char) :
    (turnDots k cs).length = cs.length := by
  induction cs with
  | nil => rfl
  | cons c cs ih => rw [turnDots, List.length_cons, List.length_cons, ih]

theorem turnDots_of_notMem (k : Nat) (h : '.' ∉ cs) : turnDots k cs = cs := by
  induction cs with
  | nil => rfl
  | cons c cs ih =>
    have hc : c ≠ '.' := (List.ne_of_not_mem_cons h).symm
    rw [turnDots, ih (List.not_mem_of_not_mem_cons h), if_neg fun hdot ↦ hc hdot.1]

/-- Each dot that is turned is one dot less. -/
theorem count_turnDots (k : Nat) (cs : List Char) :
    (turnDots k cs).count '.' = cs.count '.' - k := by
  induction cs with
  | nil => exact (Nat.zero_sub k).symm
  | cons c cs ih =>
    rw [turnDots]
    by_cases hc : c = '.'
    · subst hc
      rw [List.count_cons_self]
      by_cases hturned : cs.count '.' < k
      · rw [if_pos ⟨rfl, hturned⟩, List.count_cons_of_ne (by decide), ih]
        omega
      · rw [if_neg fun h ↦ hturned h.2, List.count_cons_self, ih]
        omega
    · rw [if_neg fun h ↦ hc h.1, List.count_cons_of_ne hc, List.count_cons_of_ne hc, ih]

/-- Turning goes from the last dot to the first, so it can be done in two steps. -/
theorem turnDots_turnDots (j k : Nat) (cs : List Char) :
    turnDots j (turnDots k cs) = turnDots (k + j) cs := by
  induction cs with
  | nil => rfl
  | cons c cs ih =>
    rw [turnDots, turnDots, turnDots, ih, count_turnDots]
    congr 1
    by_cases hc : c = '.'
    · by_cases hturned : cs.count '.' < k
      · have hlater : cs.count '.' < k + j := by omega
        simp [hc, hturned, hlater]
      · have hiff : cs.count '.' - k < j ↔ cs.count '.' < k + j := by omega
        simp [hc, hturned, hiff]
    · simp [hc]

/-- One dot more: the last one that is left. -/
theorem exists_last_dot (h : k < cs.count '.') :
    ∃ front back, turnDots k cs = front ++ '.' :: back ∧ '.' ∉ back ∧
      turnDots (k + 1) cs = front ++ '$' :: back := by
  have hmem : '.' ∈ turnDots k cs := by
    rw [← List.count_pos_iff, count_turnDots]
    omega
  -- The last dot is the first one from the other end.
  obtain ⟨back, front, hsplit, hback⟩ := List.eq_append_cons_of_mem (List.mem_reverse.mpr hmem)
  have hsplit : turnDots k cs = front.reverse ++ '.' :: back.reverse := by
    have h := congrArg List.reverse hsplit
    simpa using h
  have hback : '.' ∉ back.reverse := fun hmem ↦ hback (List.mem_reverse.mp hmem)
  refine ⟨front.reverse, back.reverse, hsplit, hback, ?_⟩
  rw [← turnDots_turnDots, hsplit, turnDots_append, turnDots, turnDots_of_notMem 1 hback]
  simp [List.count_eq_zero.mpr hback]

end

/-! ## The forms of a name -/

/-- The separators stand between the segments. -/
theorem count_joinSegments {separator : Char} {ss : List (List Char)} (hne : ss ≠ [])
    (h : ∀ s ∈ ss, separator ∉ s) :
    (joinSegments separator ss).count separator + 1 = ss.length := by
  induction ss with
  | nil => exact absurd rfl hne
  | cons s ss ih =>
    obtain ⟨hs, hss⟩ := List.forall_mem_cons.mp h
    have hcount : s.count separator = 0 := List.count_eq_zero.mpr hs
    by_cases hnil : ss = []
    · rw [hnil, joinSegments, hcount]
      rfl
    · rw [joinSegments_cons_of_ne_nil s hnil, List.count_append, List.count_cons_self,
        hcount, Nat.zero_add, ih hnil hss, List.length_cons]

/-- All dots are turned if as many are to be turned as there are. -/
theorem turnDots_joinSegments_of_le {k : Nat} {ss : List (List Char)} (h : ∀ s ∈ ss, '.' ∉ s)
    (hk : ss.length ≤ k + 1) : turnDots k (joinSegments '.' ss) = joinSegments '$' ss := by
  induction ss with
  | nil => rfl
  | cons s ss ih =>
    obtain ⟨hs, hss⟩ := List.forall_mem_cons.mp h
    by_cases hnil : ss = []
    · rw [hnil]
      exact turnDots_of_notMem k hs
    · have hcount := count_joinSegments hnil hss
      have hk : ss.length < k + 1 := hk
      rw [joinSegments_cons_of_ne_nil s hnil, joinSegments_cons_of_ne_nil s hnil,
        turnDots_append, turnDots_of_notMem _ hs, turnDots, ih hss (Nat.le_of_lt hk),
        if_pos ⟨rfl, by omega⟩]

/-- The last `k` dots are those in front of the last `k` segments. -/
theorem turnDots_joinSegments {k : Nat} {ss : List (List Char)} (h : ∀ s ∈ ss, '.' ∉ s)
    (hk : k < ss.length) :
    turnDots k (joinSegments '.' ss) = joinSegments '$'
      (joinSegments '.' (ss.take (ss.length - k)) :: ss.drop (ss.length - k)) := by
  induction ss with
  | nil => exact absurd hk (Nat.not_lt_zero k)
  | cons s ss ih =>
    obtain ⟨hs, hss⟩ := List.forall_mem_cons.mp h
    rw [List.length_cons] at hk ⊢
    by_cases hall : k = ss.length
    · -- Only the first segment is left in front.
      subst hall
      rw [turnDots_joinSegments_of_le h (Nat.le_refl _), Nat.add_sub_cancel_left, List.take_succ_cons,
        List.take_zero, List.drop_succ_cons, List.drop_zero]
      rfl
    · have hk : k < ss.length := by omega
      have hnil : ss ≠ [] := List.ne_nil_of_length_pos (by omega)
      have hcount := count_joinSegments hnil hss
      have hfront : ss.take (ss.length - k) ≠ [] := by
        rw [ne_eq, List.take_eq_nil_iff, not_or]
        exact ⟨by omega, hnil⟩
      have hsub : ss.length + 1 - k = ss.length - k + 1 := by omega
      rw [hsub, List.take_succ_cons, List.drop_succ_cons, joinSegments_cons_of_ne_nil s hnil,
        joinSegments_cons_of_ne_nil s hfront, turnDots_append, turnDots_of_notMem _ hs, turnDots,
        ih hss hk, if_neg (by omega)]
      -- The first segment and the dot behind it stand in front of either side.
      cases ss.drop (ss.length - k) with
      | nil => rfl
      | cons t ts => simp only [joinSegments, List.append_assoc, List.cons_append]

theorem length_segments (cs : List Char) : (segments '.' cs).length = cs.count '.' + 1 := by
  have h := count_joinSegments (segments_ne_nil '.' cs) fun s hs ↦ notMem_of_mem_segments hs
  rw [joinSegments_segments] at h
  exact h.symm

/-- The forms of a name: none, one, two, … of its dots are turned. -/
theorem nestedForms_eq (name : String) :
    nestedForms name = (List.range (dotCount name + 1)).map (withDollars · name) := by
  rw [nestedForms, length_segments, dotCount]
  refine List.map_congr_left fun k hk ↦ ?_
  have hlt : k < (segments '.' name.toList).length := by
    rw [length_segments]
    exact List.mem_range.mp hk
  have hturn := turnDots_joinSegments (fun s hs ↦ notMem_of_mem_segments hs) hlt
  rw [joinSegments_segments] at hturn
  rw [nestedForm, withDollars, hturn]

theorem dotCount_withDollars (k : Nat) (name : String) :
    dotCount (withDollars k name) = dotCount name - k := by
  rw [dotCount, withDollars, String.toList_ofList, count_turnDots, dotCount]

theorem dotCount_append (s t : String) : dotCount (s ++ t) = dotCount s + dotCount t := by
  rw [dotCount, String.toList_append, List.count_append, dotCount, dotCount]

theorem withDollars_append {k : Nat} {back : String} (hk : k ≤ dotCount back) (front : String) :
    withDollars k (front ++ back) = front ++ withDollars k back := by
  rw [dotCount] at hk
  rw [withDollars, String.toList_append, turnDots_append, Nat.sub_eq_zero_of_le hk, turnDots_zero,
    withDollars, String.ofList_append, String.ofList_toList]

/-- No two forms have equally many dots. -/
theorem nodup_nestedForms (name : String) : (nestedForms name).Nodup := by
  rw [nestedForms_eq]
  refine List.Nodup.map_on ?_ List.nodup_range
  intro j hj k hk heq
  have hdots := congrArg dotCount heq
  rw [dotCount_withDollars, dotCount_withDollars] at hdots
  rw [List.mem_range] at hj hk
  omega

theorem turns_map_range {k n : Nat} {name : String} (hn : dotCount name = k + n) :
    Turns (withDollars k name) ((List.range (n + 1)).map fun i ↦ withDollars (k + i) name) := by
  induction n generalizing k with
  | zero =>
    refine .done ?_
    rw [← List.count_eq_zero]
    change dotCount (withDollars k name) = 0
    rw [dotCount_withDollars]
    omega
  | succ n ih =>
    have hlt : k < name.toList.count '.' := by
      rw [dotCount] at hn
      omega
    obtain ⟨front, back, hbefore, hback, hbehind⟩ := exists_last_dot hlt
    have hform : withDollars k name = String.ofList front ++ "." ++ String.ofList back := by
      rw [withDollars, hbefore, ← String.toList_inj]
      simp [String.toList_append]
    have hnext : withDollars (k + 1) name = String.ofList front ++ "$" ++ String.ofList back := by
      rw [withDollars, hbehind, ← String.toList_inj]
      simp [String.toList_append]
    have hrest := ih (k := k + 1) (by omega)
    rw [List.range_succ_eq_map, List.map_cons, List.map_map, Nat.add_zero, hform]
    refine .turn (by rwa [String.toList_ofList]) ?_
    rw [← hnext]
    have hshift : ((fun i ↦ withDollars (k + i) name) ∘ Nat.succ) =
        fun i ↦ withDollars (k + 1 + i) name := by
      funext i
      rw [Function.comp_apply, Nat.succ_eq_add_one, Nat.add_right_comm, Nat.add_assoc]
    rw [hshift]
    exact hrest

theorem turns_nestedForms (name : String) : Turns name (nestedForms name) := by
  have hdots : dotCount name = 0 + dotCount name := (Nat.zero_add _).symm
  have h := turns_map_range hdots
  have hstart : withDollars 0 name = name := by
    rw [withDollars, turnDots_zero, String.ofList_toList]
  rw [hstart] at h
  rw [nestedForms_eq]
  simpa only [Nat.zero_add] using h

/-! ## Imported names -/

/-- A form begins with the front of the name if none of the turned dots stands in it. -/
theorem isPrefixOf_iff_dots_le {binary rest form : String}
    (h : form ∈ nestedForms (binary ++ rest)) :
    binary.toList.isPrefixOf form.toList = true ↔ dotCount binary ≤ dotCount form := by
  rw [nestedForms_eq] at h
  obtain ⟨k, hk, rfl⟩ := List.mem_map.mp h
  rw [List.mem_range, dotCount_append] at hk
  rw [List.isPrefixOf_iff_prefix]
  by_cases hrest : k ≤ dotCount rest
  · refine iff_of_true ?_ ?_
    · rw [withDollars_append hrest, String.toList_append]
      exact List.prefix_append _ _
    · rw [dotCount_withDollars, dotCount_append]
      omega
  · refine iff_of_false ?_ ?_
    · -- What stands in place of the front has fewer dots than the front.
      intro hprefix
      rw [withDollars, String.toList_ofList, String.toList_append, turnDots_append] at hprefix
      have hfront := List.prefix_of_prefix_length_le hprefix (List.prefix_append _ _)
        (Nat.le_of_eq (length_turnDots _ _).symm)
      have hcount := congrArg (List.count '.')
        (hfront.eq_of_length (length_turnDots _ _).symm)
      rw [count_turnDots] at hcount
      simp only [dotCount] at hk hrest
      omega
    · rw [dotCount_withDollars, dotCount_append]
      omega

/-- The forms that begin with the front of the name: one for each number of dots behind it. -/
theorem filter_dots_nestedForms (binary rest : String) :
    (nestedForms (binary ++ rest)).filter (fun form ↦ dotCount binary ≤ dotCount form) =
      (List.range (dotCount rest + 1)).map fun k ↦ binary ++ withDollars k rest := by
  have hsum : dotCount (binary ++ rest) + 1 = dotCount rest + 1 + dotCount binary := by
    rw [dotCount_append]
    omega
  rw [nestedForms_eq, hsum, List.range_add, List.map_append, List.filter_append]
  have hnone : (((List.range (dotCount binary)).map (dotCount rest + 1 + ·)).map
      (withDollars · (binary ++ rest))).filter (fun form ↦ dotCount binary ≤ dotCount form) = [] := by
    rw [List.filter_eq_nil_iff]
    intro form hform
    obtain ⟨k, hk, rfl⟩ := List.mem_map.mp hform
    obtain ⟨i, hi, rfl⟩ := List.mem_map.mp hk
    rw [decide_eq_true_iff, dotCount_withDollars, dotCount_append]
    have := List.mem_range.mp hi
    omega
  rw [hnone, List.append_nil, List.filter_eq_self.mpr]
  · refine List.map_congr_left fun k hk ↦ ?_
    exact withDollars_append (Nat.le_of_lt_succ (List.mem_range.mp hk)) binary
  · intro form hform
    obtain ⟨k, hk, rfl⟩ := List.mem_map.mp hform
    rw [decide_eq_true_iff, dotCount_withDollars, dotCount_append]
    have := List.mem_range.mp hk
    omega

theorem filter_isPrefixOf_nestedForms (binary rest : String) :
    (nestedForms (binary ++ rest)).filter (fun form ↦ binary.toList.isPrefixOf form.toList) =
      (List.range (dotCount rest + 1)).map fun k ↦ binary ++ withDollars k rest := by
  rw [← filter_dots_nestedForms]
  refine List.filter_congr fun form hform ↦ ?_
  rw [Bool.eq_iff_iff, isPrefixOf_iff_dots_le hform, decide_eq_true_iff]

/-- What a name reads as whose first segment is an imported alias: the class that the alias stands
for or, if there is more behind the alias, the forms that leave this class as it is. -/
def importReadings (imports : Imports) (name : String) : List String :=
  match splitText '.' name with
  | [] => []
  | localName :: members =>
    match imports.lookup localName, members with
    | none, _ => []
    | some binary, [] => [binary]
    | some binary, _ =>
      (nestedForms (binary ++ "." ++ ".".intercalate members)).filter fun form ↦
        binary.toList.isPrefixOf form.toList

theorem splitText_append (front back : String) (h : '.' ∉ front.toList) :
    splitText '.' (front ++ "." ++ back) = front :: splitText '.' back := by
  have htext : (front ++ "." ++ back).toList = front.toList ++ '.' :: back.toList := by
    simp [String.toList_append]
  rw [splitText, htext, segments_append, segments_of_notMem h, List.singleton_append, List.map_cons,
    String.ofList_toList, splitText]

theorem intercalate_splitText (s : String) : ".".intercalate (splitText '.' s) = s := by
  rw [← String.toList_inj, String.toList_intercalate, map_toList_splitText]
  exact (intercalate_eq_joinSegments _).trans (joinSegments_segments '.' s.toList)

theorem span_of_dot_notMem {front : List Char} (h : '.' ∉ front) (back : List Char) :
    (front ++ '.' :: back).span (· != '.') = (front, '.' :: back) ∧
      front.span (· != '.') = (front, []) := by
  have hall : ∀ c ∈ front, (c != '.') = true := by
    intro c hc
    rw [bne_iff_ne]
    rintro rfl
    exact h hc
  rw [List.span_eq_takeWhile_dropWhile, List.span_eq_takeWhile_dropWhile]
  constructor
  · rw [List.takeWhile_append_of_pos hall, List.dropWhile_append_of_pos hall]
    simp
  · rw [List.takeWhile_eq_self_iff.mpr hall, List.dropWhile_eq_nil_iff.mpr hall]

/-- Counting dots selects the right forms. -/
theorem importedForms_eq (imports : Imports) (name : String) :
    importedForms imports name = importReadings imports name := by
  rw [importedForms, importReadings]
  by_cases hdot : '.' ∈ name.toList
  · obtain ⟨front, back, hname, hfront⟩ := List.eq_append_cons_of_mem hdot
    have hsplit : splitText '.' name = String.ofList front :: splitText '.' (String.ofList back) := by
      rw [← splitText_append _ _ (by rwa [String.toList_ofList])]
      congr 1
      rw [← String.toList_inj, hname]
      simp [String.toList_append]
    rw [hname, (span_of_dot_notMem hfront back).1, hsplit]
    dsimp only
    cases imports.lookup (String.ofList front) with
    | none => rfl
    | some binary =>
      have hrest : binary ++ String.ofList ('.' :: back) =
          binary ++ ("." ++ String.ofList back) := by
        rw [← String.toList_inj]
        simp [String.toList_append]
      dsimp only
      rw [hrest, filter_dots_nestedForms, ← filter_isPrefixOf_nestedForms, intercalate_splitText,
        ← String.append_assoc]
      cases hmembers : splitText '.' (String.ofList back) with
      | nil =>
        rw [splitText, List.map_eq_nil_iff] at hmembers
        exact absurd hmembers (segments_ne_nil _ _)
      | cons member members => rfl
  · rw [(span_of_dot_notMem hdot []).2, splitText_of_notMem hdot]
    dsimp only
    rw [String.ofList_toList]
    cases imports.lookup name with
    | none => rfl
    | some binary => rfl

/-- An alias of a nested class: what is behind it can only be nested deeper. -/
example : importReadings [("Entry", "java.util.Map$Entry")] "Entry.Key" =
    ["java.util.Map$Entry.Key", "java.util.Map$Entry$Key"] := by
  decide +kernel

/-! ## First occurrences -/

/-- The second list has each element of the first one once, where it occurs there first. -/
structure KeepsFirst (all kept : List String) : Prop where
  nodup : kept.Nodup
  mem_iff : ∀ n, n ∈ kept ↔ n ∈ all
  ordered : ∀ m n, kept.idxOf m < kept.idxOf n ↔ all.idxOf m < all.idxOf n

theorem keepsFirst_eraseDups (l : List String) : KeepsFirst l l.eraseDups :=
  ⟨nodup_eraseDups l, fun _ ↦ List.mem_eraseDups, fun m n ↦ idxOf_eraseDups_lt_iff m n l⟩

/-! ## The candidates -/

/-- The forms of a name are those that turning its dots one after the other leads to, one for each
number of turned dots and no two of them equal. The candidates are, each where it comes first: the
readings of an imported name, of which there is one for each number of turned dots behind the
imported class, the forms of the name itself, and its forms in the star packages and then in the
default packages, package by package. -/
theorem candidateNames_keepsFirst (name : String) (imports : Imports)
    (starPackages : List String) :
    (Turns name (nestedForms name) ∧ (nestedForms name).Nodup ∧
      nestedForms name = (List.range (dotCount name + 1)).map (withDollars · name)) ∧
    (∀ binary rest, (nestedForms (binary ++ "." ++ rest)).filter
        (fun form ↦ binary.toList.isPrefixOf form.toList) =
      (List.range (dotCount ("." ++ rest) + 1)).map fun k ↦ binary ++ withDollars k ("." ++ rest)) ∧
    KeepsFirst
      (importReadings imports name ++ nestedForms name ++
        starPackages.flatMap (fun package ↦ nestedForms (package ++ name)) ++
        defaultPackages.flatMap (fun package ↦ nestedForms (package ++ name)))
      (candidateNames name imports starPackages) := by
  refine ⟨⟨turns_nestedForms name, nodup_nestedForms name, nestedForms_eq name⟩, ?_, ?_⟩
  · intro binary rest
    rw [String.append_assoc]
    exact filter_isPrefixOf_nestedForms binary ("." ++ rest)
  · rw [candidateNames, importedForms_eq, List.flatMap_append, ← List.append_assoc,
      ← List.append_assoc]
    exact keepsFirst_eraseDups _

end BuildScript
