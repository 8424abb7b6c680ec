import AuctionGate.Net.Url
import Mathlib.Data.List.TakeWhile
import Mathlib.Tactic.SplitIfs

/-!
# IP addresses as they are written

An IP address is written with digits, dots and colons and nothing else that matters to a URL. So the
rules of domain names leave the text of an IPv4 address alone but for its case, which has no
meaning, and a URL takes it as the address that it is (`Url.host?_of_v4`).
-/

namespace AuctionGate.Net

/-! ## Characters of what reads -/

section Characters

variable {cs : List Char} {c sep : Char}

theorem mem_splitOn (h : c ∈ cs) : c = sep ∨ ∃ p ∈ splitOn sep cs, c ∈ p := by
  induction cs with
  | nil => cases h
  | cons d cs ih =>
    rcases List.mem_cons.1 h with rfl | hmem
    · by_cases hsep : c = sep
      · exact .inl hsep
      · right
        simp only [splitOn, if_neg hsep]
        split <;> simp
    · rcases ih hmem with hsep | ⟨p, hp, hcp⟩
      · exact .inl hsep
      · right
        simp only [splitOn]
        split
        · exact ⟨p, List.mem_cons_of_mem _ hp, hcp⟩
        · split
          · rename_i q qs hq
            rw [hq] at hp
            rcases List.mem_cons.1 hp with rfl | hp
            · exact ⟨d :: p, List.mem_cons_self, List.mem_cons_of_mem _ hcp⟩
            · exact ⟨p, List.mem_cons_of_mem _ hp, hcp⟩
          · rename_i hq
            rw [hq] at hp
            cases hp

theorem splitOn_of_notMem (h : sep ∉ cs) : splitOn sep cs = [cs] := by
  induction cs with
  | nil => rfl
  | cons d cs ih =>
    rw [List.mem_cons, not_or] at h
    simp only [splitOn, if_neg (Ne.symm h.1), ih h.2]

theorem reads_of_mapM {α β : Type} {f : α → Option β} {l : List α} {ys : List β}
    (h : l.mapM f = some ys) : ∀ a ∈ l, (f a).isSome := by
  induction l generalizing ys with
  | nil => nofun
  | cons x l ih =>
    rw [List.mapM_cons] at h
    obtain ⟨y, hy, h⟩ := Option.bind_eq_some_iff.1 h
    obtain ⟨ys', hys, -⟩ := Option.bind_eq_some_iff.1 h
    intro a ha
    rcases List.mem_cons.1 ha with rfl | ha
    · rw [hy]; rfl
    · exact ih hys a ha

theorem digits_of_number {base n : Nat} (h : number? base cs = some n) :
    cs ≠ [] ∧ ∀ c ∈ cs, (Hex.digit? c).isSome := by
  unfold number? at h
  split_ifs at h with hempty
  refine ⟨fun hnil => hempty (by rw [hnil]; rfl), ?_⟩
  clear hempty
  generalize 0 = acc at h
  induction cs generalizing acc with
  | nil => nofun
  | cons d cs ih =>
    rw [List.foldlM_cons] at h
    obtain ⟨acc', hacc, h⟩ := Option.bind_eq_some_iff.1 h
    obtain ⟨v, hv, -⟩ := Option.bind_eq_some_iff.1 hacc
    intro c hc
    rcases List.mem_cons.1 hc with rfl | hc
    · rw [hv]; rfl
    · exact ih _ h c hc

/-- A character of a number as it stands in an IP address. -/
def Ip.Inner (c : Char) : Prop := (Hex.digit? c).isSome ∨ c = 'x' ∨ c = 'X' ∨ c = '.'

instance : Decidable (Ip.Inner c) :=
  inferInstanceAs (Decidable ((Hex.digit? c).isSome = true ∨ c = 'x' ∨ c = 'X' ∨ c = '.'))

namespace Ip

/-- A number has digits, and at most the mark of its base besides. -/
theorem digits_of_part (h : (part? cs).isSome) :
    cs ≠ [] ∧ ∀ c ∈ cs, (Hex.digit? c).isSome ∨ c = 'x' ∨ c = 'X' := by
  obtain ⟨n, h⟩ := Option.isSome_iff_exists.1 h
  unfold part? at h
  split at h
  · rename_i x rest
    refine ⟨List.cons_ne_nil _ _, ?_⟩
    split_ifs at h with hx
    · intro c hc
      rcases List.mem_cons.1 hc with rfl | hc
      · exact .inl (by decide)
      · rcases List.mem_cons.1 hc with rfl | hc
        · exact .inr hx
        · exact .inl ((digits_of_number h).2 c hc)
    · intro c hc
      rcases List.mem_cons.1 hc with rfl | hc
      · exact .inl (by decide)
      · exact .inl ((digits_of_number h).2 c hc)
  · exact ⟨(digits_of_number h).1, fun c hc => .inl ((digits_of_number h).2 c hc)⟩

theorem inner_of_part (h : (part? cs).isSome) : ∀ c ∈ cs, Inner c := fun c hc =>
  ((digits_of_part h).2 c hc).imp id (Or.imp id .inl)

theorem inner_of_v4 {n : Nat} (h : v4? cs = some n) : ∀ c ∈ cs, Inner c := by
  unfold v4? at h
  obtain ⟨parts, hparts, -⟩ := Option.bind_eq_some_iff.1 h
  intro c hc
  rcases mem_splitOn hc with hdot | ⟨p, hp, hcp⟩
  · exact .inr (.inr (.inr hdot))
  · exact inner_of_part (reads_of_mapM hparts p hp) c hcp

theorem inner_of_dotted {x : Nat × Nat} (h : dotted? cs = some x) : ∀ c ∈ cs, Inner c := by
  unfold dotted? at h
  obtain ⟨parts, hparts, -⟩ := Option.bind_eq_some_iff.1 h
  intro c hc
  rcases mem_splitOn hc with hdot | ⟨p, hp, hcp⟩
  · exact .inr (.inr (.inr hdot))
  · have hread := reads_of_mapM hparts p hp
    split_ifs at hread
    · cases hread
    · obtain ⟨m, hm⟩ := Option.isSome_iff_exists.1 hread
      exact .inl ((digits_of_number (Option.filter_eq_some_iff.1 hm).1).2 c hcp)

theorem inner_of_group {n : Nat} (h : group? cs = some n) : ∀ c ∈ cs, Inner c := by
  unfold group? at h
  split_ifs at h
  exact fun c hc => .inl ((digits_of_number h).2 c hc)

theorem inner_of_groups {ps : List (List Char)} {gs : List Nat} (h : groups? ps = some gs) :
    ∀ p ∈ ps, ∀ c ∈ p, Inner c := by
  fun_induction groups? ps generalizing gs with
  | case1 => nofun
  | case2 p hdot =>
    obtain ⟨x, hx, -⟩ := Option.map_eq_some_iff.1 h
    intro q hq
    rw [List.mem_singleton.1 hq]
    exact inner_of_dotted hx
  | case3 p hdot =>
    obtain ⟨x, hx, -⟩ := Option.map_eq_some_iff.1 h
    intro q hq
    rw [List.mem_singleton.1 hq]
    exact inner_of_group hx
  | case4 p ps hne ih =>
    obtain ⟨g, hg, h⟩ := Option.bind_eq_some_iff.1 h
    obtain ⟨gs', hgs, -⟩ := Option.bind_eq_some_iff.1 h
    intro q hq
    rcases List.mem_cons.1 hq with rfl | hq
    · exact inner_of_group hg
    · exact ih hgs q hq

theorem inner_of_side {gs : List Nat} (h : side? cs = some gs) :
    ∀ c ∈ cs, Inner c ∨ c = ':' := by
  unfold side? at h
  split_ifs at h with hempty
  · rw [List.isEmpty_iff.1 hempty]
    nofun
  · intro c hc
    rcases mem_splitOn hc with hcolon | ⟨p, hp, hcp⟩
    · exact .inr hcolon
    · exact .inl (inner_of_groups h p hp c hcp)

theorem eq_of_splitGap {a b : List Char} (h : splitGap cs = some (a, b)) :
    cs = a ++ ':' :: ':' :: b := by
  fun_induction splitGap cs generalizing a with
  | case1 cs =>
    cases h
    rfl
  | case2 c cs hne ih =>
    obtain ⟨⟨a', b'⟩, hsplit, heq⟩ := Option.map_eq_some_iff.1 h
    cases heq
    rw [ih hsplit, List.cons_append]
  | case3 => cases h

theorem inner_of_v6 {gs : List Nat} (h : v6? cs = some gs) : ∀ c ∈ cs, Inner c ∨ c = ':' := by
  unfold v6? at h
  split at h
  · exact inner_of_side (Option.filter_eq_some_iff.1 h).1
  · rename_i a b hsplit
    split_ifs at h
    · cases h
    obtain ⟨head, hhead, h⟩ := Option.bind_eq_some_iff.1 h
    obtain ⟨tail, htail, -⟩ := Option.bind_eq_some_iff.1 h
    intro c hc
    rw [eq_of_splitGap hsplit] at hc
    simp only [List.mem_append, List.mem_cons] at hc
    rcases hc with hc | rfl | rfl | hc
    · exact inner_of_side hhead c hc
    · exact .inr rfl
    · exact .inr rfl
    · exact inner_of_side htail c hc

/-- One group cannot stand for eight. -/
theorem colon_of_v6 {gs : List Nat} (h : v6? cs = some gs) : ':' ∈ cs := by
  unfold v6? at h
  split at h
  · obtain ⟨hside, hlen⟩ := Option.filter_eq_some_iff.1 h
    by_contra hcolon
    unfold side? at hside
    split_ifs at hside
    · cases hside
      cases hlen
    · rw [splitOn_of_notMem hcolon, groups?] at hside
      split_ifs at hside
      all_goals
        obtain ⟨x, -, rfl⟩ := Option.map_eq_some_iff.1 hside
        cases hlen
  · rename_i a b hsplit
    rw [eq_of_splitGap hsplit]
    simp

end Ip

end Characters

/-! ## IPv4 addresses in URLs -/

section Case

variable {cs label : List Char} {c sep : Char}

/-- A character keeps its part in an address, and in a name, when it is put into lower case. -/
structure Ip.Folds (c : Char) : Prop where
  digit : Hex.digit? c.toLower = Hex.digit? c
  dot : c.toLower = '.' ↔ c = '.'
  zero : c.toLower = '0' ↔ c = '0'
  mark : (c.toLower = 'x' ∨ c.toLower = 'X') ↔ (c = 'x' ∨ c = 'X')
  plain : c ≠ '.' → c.isAlphanum = true
  hyphen : c.toLower ≠ '-'

instance : Decidable (Ip.Folds c) :=
  decidable_of_iff (_ ∧ _ ∧ _ ∧ _ ∧ _ ∧ _)
    ⟨fun ⟨h₁, h₂, h₃, h₄, h₅, h₆⟩ => ⟨h₁, h₂, h₃, h₄, h₅, h₆⟩,
      fun ⟨h₁, h₂, h₃, h₄, h₅, h₆⟩ => ⟨h₁, h₂, h₃, h₄, h₅, h₆⟩⟩

namespace Ip

theorem lt_of_inner (h : Inner c) : c.toNat < 128 := by
  rcases h with h | rfl | rfl | rfl
  · unfold Hex.digit? at h
    split_ifs at h with h₁ h₂ h₃
    · exact Nat.lt_of_le_of_lt (show c.toNat ≤ '9'.toNat from h₁.2) (by decide)
    · exact Nat.lt_of_le_of_lt (show c.toNat ≤ 'f'.toNat from h₂.2) (by decide)
    · exact Nat.lt_of_le_of_lt (show c.toNat ≤ 'F'.toNat from h₃.2) (by decide)
    · cases h
  all_goals decide

theorem folds_of_inner (h : Inner c) : Folds c := by
  have hall : ∀ n < 128, Inner (Char.ofNat n) → Folds (Char.ofNat n) := by decide +kernel
  have hc := hall c.toNat (lt_of_inner h)
  rw [Char.ofNat_toNat] at hc
  exact hc h

end Ip

theorem splitOn_lower (h : ∀ c ∈ cs, Ip.Folds c) :
    splitOn '.' (cs.map Char.toLower) = (splitOn '.' cs).map (·.map Char.toLower) := by
  induction cs with
  | nil => rfl
  | cons c cs ih =>
    obtain ⟨hc, hcs⟩ := List.forall_mem_cons.1 h
    simp only [List.map_cons, splitOn, hc.dot, ih hcs]
    split_ifs
    · rfl
    · cases splitOn '.' cs <;> rfl

theorem number?_lower (h : ∀ c ∈ cs, Ip.Folds c) (base : Nat) :
    number? base (cs.map Char.toLower) = number? base cs := by
  unfold number?
  rw [List.isEmpty_map, List.foldlM_map]
  generalize 0 = acc
  congr 1
  induction cs generalizing acc with
  | nil => rfl
  | cons c cs ih =>
    obtain ⟨hc, hcs⟩ := List.forall_mem_cons.1 h
    simp only [List.foldlM_cons, hc.digit]
    exact congrArg _ (funext fun acc => ih hcs acc)

theorem Ip.part?_lower : ∀ {cs : List Char}, (∀ c ∈ cs, Folds c) →
    part? (cs.map Char.toLower) = part? cs
  | [], _ => rfl
  | [c], h => by
    have hdecimal := number?_lower h 10
    have hone (d : Char) : part? [d] = number? 10 [d] :=
      part?.eq_2 _ fun _ _ heq => List.cons_ne_nil _ _ (List.cons.inj heq).2.symm
    rw [hone, List.map_cons, List.map_nil, hone]
    exact hdecimal
  | c :: x :: cs, h => by
    obtain ⟨hc, hrest⟩ := List.forall_mem_cons.1 h
    obtain ⟨hx, hcs⟩ := List.forall_mem_cons.1 hrest
    by_cases hzero : c = '0'
    · subst hzero
      have hoctal := number?_lower hrest 8
      simp only [List.map_cons, hc.zero.2 rfl, part?, hx.mark] at hoctal ⊢
      rw [hoctal, number?_lower hcs]
    · have hdecimal := number?_lower h 10
      have hlower : c.toLower ≠ '0' := mt hc.zero.1 hzero
      rw [part?.eq_2 _ fun _ _ heq => hzero (List.cons.inj heq).1, List.map_cons,
        part?.eq_2 _ fun _ _ heq => hlower (List.cons.inj heq).1]
      exact hdecimal

theorem mem_of_splitOn {p : List Char} (hp : p ∈ splitOn sep cs) (hc : c ∈ p) :
    c ∈ cs ∧ c ≠ sep := by
  induction cs generalizing p with
  | nil =>
    rw [List.mem_singleton.1 hp] at hc
    cases hc
  | cons d cs ih =>
    have hlater {q : List Char} (hq : q ∈ splitOn sep cs) (hcq : c ∈ q) : c ∈ d :: cs ∧ c ≠ sep :=
      ⟨List.mem_cons_of_mem d (ih hq hcq).1, (ih hq hcq).2⟩
    simp only [splitOn] at hp
    split_ifs at hp with hd
    · rcases List.mem_cons.1 hp with rfl | hp
      · cases hc
      · exact hlater hp hc
    · split at hp
      · rename_i q qs hq
        rcases List.mem_cons.1 hp with rfl | hp
        · rcases List.mem_cons.1 hc with rfl | hc
          · exact ⟨List.mem_cons_self, hd⟩
          · exact hlater (hq ▸ List.mem_cons_self) hc
        · exact hlater (hq ▸ List.mem_cons_of_mem q hp) hc
      · rw [List.mem_singleton.1 hp, List.mem_singleton] at hc
        exact ⟨hc ▸ List.mem_cons_self, hc ▸ hd⟩

namespace Url

variable {n : Nat} {parts : List Nat}

theorem isPlainLabel_of_part (h : (Ip.part? label).isSome) (hdot : '.' ∉ label) :
    isPlainLabel label = true := by
  obtain ⟨hne, hdigits⟩ := Ip.digits_of_part h
  have hfolds : ∀ c ∈ label, Ip.Folds c := fun c hc => Ip.folds_of_inner (Ip.inner_of_part h c hc)
  have hencoded : (label.take 4).map Char.toLower ≠ ['x', 'n', '-', '-'] := by
    intro heq
    obtain ⟨c, hc, hlower⟩ := List.mem_map.1
      (show '-' ∈ (label.take 4).map Char.toLower from heq ▸ by simp)
    exact (hfolds c (List.mem_of_mem_take hc)).hyphen hlower
  simp only [isPlainLabel, Bool.and_eq_true, Bool.not_eq_true', List.isEmpty_eq_false_iff,
    List.all_eq_true, decide_eq_true_eq]
  refine ⟨⟨hne, fun c hc => ?_⟩, hencoded⟩
  rw [(hfolds c hc).plain fun heq => hdot (heq ▸ hc)]
  rfl

theorem isPlain_of_v4 (h : Ip.v4? cs = some n) : isPlain cs = true := by
  obtain ⟨parts, hparts, -⟩ := Option.bind_eq_some_iff.1 h
  refine List.all_eq_true.2 fun label hlabel => isPlainLabel_of_part (reads_of_mapM hparts _ hlabel)
    fun hdot => (mem_of_splitOn hlabel hdot).2 rfl

theorem labels_eq (h : ∀ l ∈ splitOn '.' cs, l ≠ []) : labels cs = splitOn '.' cs := by
  refine if_neg fun hlast => ?_
  exact h [] (List.mem_of_getLast? hlast.2) rfl

/-- What is a number of an IPv4 address in itself is the same number in a URL. -/
theorem part?_of_ip (h : (Ip.part? label).isSome) : part? label = Ip.part? label := by
  refine if_neg ?_
  rintro (rfl | rfl)
  all_goals
    rw [show Ip.part? _ = none by decide] at h
    cases h

theorem part?_lower (h : (Ip.part? label).isSome) :
    part? (label.map Char.toLower) = Ip.part? label := by
  have hlower := Ip.part?_lower fun c hc => Ip.folds_of_inner (Ip.inner_of_part h c hc)
  rw [part?_of_ip (hlower ▸ h), hlower]

theorem mapM_lower : ∀ {ls : List (List Char)}, (∀ l ∈ ls, (Ip.part? l).isSome) →
    (ls.map (·.map Char.toLower)).mapM part? = ls.mapM Ip.part?
  | [], _ => rfl
  | l :: ls, h => by
    obtain ⟨hl, hls⟩ := List.forall_mem_cons.1 h
    rw [List.map_cons, List.mapM_cons, List.mapM_cons, mapM_lower hls, part?_lower hl]

/-- A URL reads an IPv4 address as such, whatever the rules of domain names. -/
theorem host?_of_v4 (rules : DomainRules) (h : Ip.v4? cs = some n) :
    host? rules cs = some (.ip (.v4 n)) := by
  obtain ⟨parts, hparts, hn⟩ := Option.bind_eq_some_iff.1 h
  have hreads := reads_of_mapM hparts
  have hfolds : ∀ c ∈ cs, Ip.Folds c := fun c hc => Ip.folds_of_inner (Ip.inner_of_v4 h c hc)
  have hne : ∀ l ∈ splitOn '.' cs, l ≠ [] := fun l hl => (Ip.digits_of_part (hreads l hl)).1
  have hcs : cs ≠ [] := by
    rintro rfl
    cases h
  have hlabels : labels (cs.map Char.toLower) = (splitOn '.' cs).map (·.map Char.toLower) := by
    rw [← splitOn_lower hfolds]
    refine labels_eq fun l hl hnil => ?_
    rw [splitOn_lower hfolds] at hl
    obtain ⟨l', hl', rfl⟩ := List.mem_map.1 hl
    exact hne l' hl' (List.map_eq_nil_iff.1 hnil)
  have hnumber : (labels (cs.map Char.toLower)).getLast?.any isNumber = true := by
    rw [hlabels, List.getLast?_map]
    rcases hlast : (splitOn '.' cs).getLast? with _ | l
    · rw [List.getLast?_eq_none_iff.1 hlast] at hparts
      cases hparts
      cases hn
    · have hl := hreads l (List.mem_of_getLast? hlast)
      simp only [Option.map_some, Option.any_some, isNumber, part?_lower hl, hl, Bool.or_true]
  have hkept : (rules.written? cs).filter (!·.isEmpty) = some (cs.map Char.toLower) := by
    rw [rules.plain cs (isPlain_of_v4 h), Option.filter_some, if_pos]
    simpa using hcs
  have hread : ((labels (cs.map Char.toLower)).mapM part?).bind Ip.ofParts? = some n := by
    rw [hlabels, mapM_lower hreads]
    exact h
  rw [host?, if_neg (by simpa using hcs), hkept]
  simp only [Option.bind_some, hnumber, if_true, hread, Option.map_some]

end Url

end Case

end AuctionGate.Net
