import AuctionGate.Proofs.Net.Literal

/-!
# Addresses in a URL

Two grammars read the text of an address, that of socket addresses and that of URLs. Of the
addresses that resolve, a URL takes exactly those in URL form: without a plus sign before the port,
without a scope, with brackets around an IPv6 host, and with a name that the rules of domain names
let through. It then has the same host and port (`Url.authority_of_resolve`).
-/

namespace AuctionGate.Net

/-! ## The parts of an address -/

section Spelling

open SocketAddress

variable {cs h p : List Char} {a : String} {e : Endpoint} {port : Nat} {names : NameService}

theorem digits_of_digitPort (h : digitPort? p = some port) :
    p ≠ [] ∧ ∀ c ∈ p, (Hex.digit? c).isSome :=
  digits_of_number (Option.filter_eq_some_iff.1 h).1

theorem takeWhile_sep {sep : Char} {x y : List Char} (h : sep ∉ x) :
    (x ++ sep :: y).takeWhile (· ≠ sep) = x := by
  have hall : ∀ c ∈ x, decide (c ≠ sep) = true := fun c hc =>
    decide_eq_true (ne_of_mem_of_not_mem hc h)
  rw [List.takeWhile_append_of_pos hall, List.takeWhile_cons_of_neg (by simp), List.append_nil]

theorem dropWhile_sep {sep : Char} {x y : List Char} (h : sep ∉ x) :
    (x ++ sep :: y).dropWhile (· ≠ sep) = sep :: y := by
  have hall : ∀ c ∈ x, decide (c ≠ sep) = true := fun c hc =>
    decide_eq_true (ne_of_mem_of_not_mem hc h)
  rw [List.dropWhile_append_of_pos hall, List.dropWhile_cons_of_neg (by simp)]

theorem splitLast_append {sep : Char} {x y : List Char} (h : sep ∉ y) :
    splitLast sep (x ++ sep :: y) = some (x, y) := by
  have hrev : (x ++ sep :: y).reverse = y.reverse ++ sep :: x.reverse := by simp
  have htail : (x ++ sep :: y).reverse.takeWhile (· ≠ sep) = y.reverse := by
    rw [hrev, takeWhile_sep (by simpa using h)]
  have hlen : (x ++ sep :: y).length - y.reverse.length - 1 = x.length := by
    rw [List.length_append, List.length_cons, List.length_reverse]
    omega
  rw [splitLast, htail, hlen, if_neg (by simp; omega), List.take_left, List.reverse_reverse]

theorem eq_of_splitLast {sep : Char} {x y : List Char} (h : splitLast sep cs = some (x, y)) :
    cs = x ++ sep :: y := by
  by_cases hmem : sep ∈ cs
  · obtain ⟨tail, rest, hcs, htail⟩ := List.eq_append_cons_of_mem (List.mem_reverse.2 hmem)
    obtain rfl : cs = rest.reverse ++ sep :: tail.reverse := by
      rw [← List.reverse_reverse cs, hcs]
      simp
    rw [splitLast_append (by simpa using htail)] at h
    obtain ⟨rfl, rfl⟩ := Prod.mk.inj (Option.some.inj h)
    rfl
  · have hall : cs.reverse.takeWhile (· ≠ sep) = cs.reverse := by
      rw [List.takeWhile_eq_self_iff]
      exact fun c hc => decide_eq_true (ne_of_mem_of_not_mem (List.mem_reverse.1 hc) hmem)
    rw [splitLast, hall, if_pos List.length_reverse] at h
    cases h

/-- The parts of the text of an address that can be read. -/
inductive Spelling : List Char → Endpoint → Prop
  | bracketed {h p : List Char} {groups : List Nat} {port : Nat} (closed : ']' ∉ h)
      (hhost : scoped? h = some groups) (hport : digitPort? p = some port) :
      Spelling ('[' :: (h ++ ']' :: ':' :: p)) ⟨.ip (.v6 groups), port⟩
  | bare {h p : List Char} {port : Nat} (hport : port? p = some port) :
      Spelling (h ++ ':' :: p) ⟨host h, port⟩

theorem spelling_of_bracketed (hcs : bracketed? cs = some e) : Spelling cs e := by
  unfold bracketed? at hcs
  split at hcs
  · rename_i cs
    obtain ⟨groups, hhost, hcs⟩ := Option.bind_eq_some_iff.1 hcs
    split at hcs
    · rename_i p hdrop
      obtain ⟨port, hport, rfl⟩ := Option.map_eq_some_iff.1 hcs
      rw [← List.takeWhile_append_dropWhile (p := (· ≠ ']')) (l := cs), hdrop]
      exact .bracketed (fun hmem => by simpa using List.mem_takeWhile_imp hmem) hhost hport
    · cases hcs
  · cases hcs

theorem spelling_of_read (ha : SocketAddress.read a = .ok e) : Spelling a.toList e := by
  unfold SocketAddress.read at ha
  dsimp only at ha
  split at ha
  · rename_i e' he
    exact Except.ok.inj ha ▸ spelling_of_bracketed he
  · split at ha
    · cases ha
    · rename_i h p hsplit
      split at ha
      · cases ha
      · rename_i port hport
        rw [eq_of_splitLast hsplit, ← Except.ok.inj ha]
        exact .bare hport

/-- An address resolves if it can be read, to an IP address or to a name that is known. -/
theorem read_of_resolve {ss : List SocketAddress} (ha : resolve names a = .ok ss) :
    ∃ e, SocketAddress.read a = .ok e ∧ ss ≠ [] ∧ (∀ s ∈ ss, s.port = e.port)
      ∧ match e.host with
        | .ip ip => ss = [⟨ip, e.port⟩]
        | .domain name => name.toList ≠ [] ∧ ∀ c ∈ name.toList, isHostChar c = true := by
  unfold resolve at ha
  split at ha
  · cases ha
  · rename_i ip port hread
    obtain rfl := Except.ok.inj ha
    exact ⟨_, hread, by simp, by simp, rfl⟩
  · rename_i name port hread
    split at ha
    · cases ha
    · cases ha
    · rename_i ips hne hips
      obtain rfl := Except.ok.inj ha
      obtain ⟨hname, hchars⟩ := names.isName name ips hips
      exact ⟨_, hread, by simpa using hne, by simp, hname, List.all_eq_true.1 hchars⟩

/-- A host with a scope is an IPv6 address before the percent sign. -/
theorem v6_of_scoped {groups : List Nat} (hhost : scoped? h = some groups) :
    ∃ rest, h = h.takeWhile (· ≠ '%') ++ rest ∧ ('%' ∉ h → rest = [])
      ∧ Ip.v6? (h.takeWhile (· ≠ '%')) = some groups := by
  refine ⟨h.dropWhile (· ≠ '%'), List.takeWhile_append_dropWhile.symm, ?_, ?_⟩
  · intro hscope
    exact List.dropWhile_eq_nil_iff.2 fun c hc =>
      decide_eq_true (ne_of_mem_of_not_mem hc hscope)
  · unfold scoped? at hhost
    dsimp only at hhost
    split_ifs at hhost with hempty
    · have hself : h.takeWhile (· ≠ '%') = h := by
        rw [List.takeWhile_eq_self_iff]
        exact List.dropWhile_eq_nil_iff.1 (List.isEmpty_iff.1 hempty)
      rwa [hself]
    · obtain ⟨-, -, hhost⟩ := Option.bind_eq_some_iff.1 hhost
      exact hhost

end Spelling

/-! ## The same address in a URL -/

/-- A host as a URL has it; none if the rules refuse its name. -/
def Host.inUrl? (rules : DomainRules) : Host → Option Host
  | ip a => some (.ip a)
  | domain name => Url.host? rules name.toList

namespace Url

open SocketAddress

variable {rules : DomainRules} {cs h p x y : List Char} {a : String} {e : Endpoint} {port : Nat}
  {names : NameService}

/-- The text of an address with an IP address has the form in which a URL takes it over. -/
def Form (cs : List Char) : Prop :=
  '+' ∉ cs ∧ '%' ∉ cs ∧ (2 ≤ cs.count ':' → cs.head? = some '[')

instance : Decidable (Form cs) := inferInstanceAs (Decidable (_ ∧ _ ∧ _))

/-- An address is one that a URL takes over: if it has an IP address, by its form, and if it has a
name, by the rules and the sign of its port. -/
def Takes (rules : DomainRules) (a : String) : Prop :=
  match SocketAddress.read a with
  | .error _ => False
  | .ok ⟨.ip _, _⟩ => Form a.toList
  | .ok ⟨.domain name, _⟩ =>
    (host? rules name.toList).isSome ∧ (a.toList.drop (name.toList.length + 1)).head? ≠ some '+'

theorem takes_ip {ip : Ip} (ha : SocketAddress.read a = .ok ⟨.ip ip, port⟩) :
    Takes rules a ↔ Form a.toList := by
  rw [Takes, ha]

theorem takes_domain {name : String} (ha : SocketAddress.read a = .ok ⟨.domain name, port⟩) :
    Takes rules a ↔ (host? rules name.toList).isSome
      ∧ (a.toList.drop (name.toList.length + 1)).head? ≠ some '+' := by
  rw [Takes, ha]

/-- A port as a URL keeps it. -/
def keptPort (port : Nat) : Option Nat := if port = 80 then none else some port

theorem portOf_of_digitPort (hp : digitPort? p = some port) :
    portOf? p = some (keptPort port) := by
  have hne : p.isEmpty = false := by simpa using (digits_of_digitPort hp).1
  rw [portOf?, hne, hp]
  rfl

theorem portOf_eq_none {c : Char} (hc : c ∈ p) (hdigit : Hex.digit? c = none) :
    portOf? p = none := by
  have hne : p.isEmpty = false := by simpa using List.ne_nil_of_mem hc
  rw [portOf?, hne]
  rcases hp : digitPort? p with _ | port
  · rfl
  · have := (digits_of_digitPort hp).2 c hc
    rw [hdigit] at this
    cases this

/-- A URL takes a port over unless it has a plus sign. -/
theorem portOf_of_port (hport : port? p = some port) :
    (p.head? ≠ some '+' → digitPort? p = some port ∧ portOf? p = some (keptPort port))
      ∧ (p.head? = some '+' → portOf? p = none) := by
  rcases p with _ | ⟨c, q⟩
  · cases hport
  constructor
  · intro hplus
    have hdigit : digitPort? (c :: q) = some port := by
      rw [port?] at hport
      · exact hport
      · rintro _ heq
        exact hplus (congrArg some (List.cons.inj heq).1)
    exact ⟨hdigit, portOf_of_digitPort hdigit⟩
  · intro hplus
    obtain rfl : c = '+' := Option.some.inj hplus
    exact portOf_eq_none List.mem_cons_self (by decide)

theorem authority_bracketed (closed : ']' ∉ h) :
    authority? rules ('[' :: (h ++ ']' :: ':' :: p))
      = (Ip.v6? h).bind fun groups => (portOf? p).map fun port => (.ip (.v6 groups), port) := by
  rw [authority?, takeWhile_sep closed, dropWhile_sep closed]
  rfl

theorem authority_bare (hx : ':' ∉ x) (hhead : (x ++ ':' :: y).head? ≠ some '[') :
    authority? rules (x ++ ':' :: y)
      = (host? rules x).bind fun host => (portOf? y).map fun port => (host, port) := by
  unfold authority?
  split
  · rename_i rest heq
    rw [heq] at hhead
    exact absurd rfl hhead
  · rw [takeWhile_sep hx, dropWhile_sep hx, List.drop_one, List.tail_cons]
    rcases host? rules x with _ | host
    · rfl
    · rcases portOf? y with _ | port <;> rfl

/-- In brackets, only a scope keeps an address out of a URL. -/
theorem authority_of_bracketed (rules : DomainRules) {groups : List Nat} (closed : ']' ∉ h)
    (hhost : scoped? h = some groups) (hport : digitPort? p = some port) :
    let cs := '[' :: (h ++ ']' :: ':' :: p)
    (Form cs → authority? rules cs = some (.ip (.v6 groups), keptPort port))
      ∧ (¬ Form cs → authority? rules cs = none) := by
  intro cs
  obtain ⟨rest, hsplit, hrest, hv6⟩ := v6_of_scoped hhost
  constructor
  · rintro ⟨-, hscope, -⟩
    have hself : h.takeWhile (· ≠ '%') = h := by
      rw [hrest fun hmem => hscope (by simp [cs, hmem]), List.append_nil] at hsplit
      exact hsplit.symm
    rw [authority_bracketed closed, ← hself, hv6, portOf_of_digitPort hport]
    rfl
  · intro hform
    rw [authority_bracketed closed]
    rcases hhost' : Ip.v6? h with _ | groups'
    · rfl
    · -- an address without a scope would have the form
      have hinner := Ip.inner_of_v6 hhost'
      have hdigits := (digits_of_digitPort hport).2
      have hnot : ∀ c, ¬ Ip.Inner c → c ≠ ':' → c ≠ '[' → c ≠ ']' → c ∉ cs := by
        intro c hc hcolon hopen hclose hmem
        simp only [cs, List.mem_cons, List.mem_append] at hmem
        rcases hmem with h | h | h | h | h
        · exact hopen h
        · exact (hinner c h).elim hc hcolon
        · exact hclose h
        · exact hcolon h
        · exact hc (.inl (hdigits c h))
      exact absurd ⟨hnot '+' (by decide) (by decide) (by decide) (by decide),
        hnot '%' (by decide) (by decide) (by decide) (by decide), fun _ => rfl⟩ hform

/-- A URL takes an IPv4 host over unless its port has a plus sign. -/
theorem authority_of_v4 (rules : DomainRules) {n : Nat} (hhost : Ip.v4? h = some n)
    (hport : port? p = some port) :
    let cs := h ++ ':' :: p
    (Form cs → authority? rules cs = some (.ip (.v4 n), keptPort port))
      ∧ (¬ Form cs → authority? rules cs = none) := by
  intro cs
  have hinner := Ip.inner_of_v4 hhost
  have hcolon : ':' ∉ h := fun hmem => absurd (hinner _ hmem) (by decide)
  have hhead : cs.head? ≠ some '[' := by
    rcases hh : h with _ | ⟨c, rest⟩
    · simp [cs, hh]
    · intro heq
      obtain rfl : c = '[' := by simpa [cs, hh] using heq
      exact absurd (hinner '[' (by simp [hh])) (by decide)
  obtain ⟨htakes, hrefuses⟩ := portOf_of_port hport
  rw [authority_bare hcolon hhead, host?_of_v4 rules hhost]
  by_cases hplus : p.head? = some '+'
  · rw [hrefuses hplus]
    have hmem : '+' ∈ cs :=
      List.mem_append_right _ (List.mem_cons_of_mem _ (List.mem_of_head? hplus))
    exact ⟨fun hform => absurd hmem hform.1, fun _ => rfl⟩
  · obtain ⟨hdigit, hkept⟩ := htakes hplus
    have hdigits := (digits_of_digitPort hdigit).2
    rw [hkept]
    refine ⟨fun _ => rfl, fun hform => absurd ?_ hform⟩
    have hnot : ∀ d, ¬ Ip.Inner d → d ≠ ':' → d ∉ cs := by
      intro d hd hcolon hmem
      simp only [cs, List.mem_append, List.mem_cons] at hmem
      rcases hmem with h | h | h
      · exact hd (hinner d h)
      · exact hcolon h
      · exact hd (.inl (hdigits d h))
    refine ⟨hnot '+' (by decide) (by decide), hnot '%' (by decide) (by decide), fun htwo => ?_⟩
    have hone : cs.count ':' = 1 := by
      have hp : ':' ∉ p := fun hmem => absurd (hdigits _ hmem) (by decide)
      simp [cs, List.count_append, List.count_eq_zero.2 hcolon, List.count_eq_zero.2 hp]
    omega

/-- A URL does not take an IPv6 host over that stands outside brackets. -/
theorem authority_of_bare_v6 (rules : DomainRules) {groups : List Nat}
    (hhost : scoped? h = some groups) :
    let cs := h ++ ':' :: p
    ¬ Form cs ∧ authority? rules cs = none := by
  intro cs
  obtain ⟨rest, hsplit, -, hv6⟩ := v6_of_scoped hhost
  generalize h.takeWhile (· ≠ '%') = ip at hsplit hv6
  have hinner := Ip.inner_of_v6 hv6
  have hmem : ':' ∈ ip := Ip.colon_of_v6 hv6
  have hhead : cs.head? ≠ some '[' := by
    obtain ⟨c, ip', rfl⟩ := List.exists_cons_of_ne_nil (List.ne_nil_of_mem hmem)
    intro heq
    obtain rfl : c = '[' := by simpa [cs, hsplit] using heq
    exact absurd (hinner '[' List.mem_cons_self) (by decide)
  obtain ⟨x, y, hhost', hx⟩ := List.eq_append_cons_of_mem
    (show ':' ∈ h from hsplit ▸ List.mem_append_left _ hmem)
  have hcs : cs = x ++ ':' :: (y ++ ':' :: p) := by simp [cs, hhost']
  constructor
  · intro hform
    refine hhead (hform.2.2 ?_)
    rw [hcs]
    simp only [List.count_append, List.count_cons_self]
    omega
  · rw [hcs] at hhead ⊢
    rw [authority_bare hx hhead, portOf_eq_none (c := ':') (by simp) (by decide)]
    cases host? rules x <;> rfl

/-- A URL takes a name over that the rules let through, unless its port has a plus sign. -/
theorem authority_of_name (hne : h ≠ []) (hname : ∀ c ∈ h, isHostChar c = true)
    (hport : port? p = some port) :
    authority? rules (h ++ ':' :: p)
      = if p.head? = some '+' then none
        else (host? rules h).map fun host => (host, keptPort port) := by
  have hcolon : ':' ∉ h := fun hmem => absurd (hname _ hmem) (by decide)
  have hhead : (h ++ ':' :: p).head? ≠ some '[' := by
    obtain ⟨c, rest, rfl⟩ := List.exists_cons_of_ne_nil hne
    intro heq
    obtain rfl : c = '[' := Option.some.inj heq
    exact absurd (hname '[' List.mem_cons_self) (by decide)
  obtain ⟨htakes, hrefuses⟩ := portOf_of_port hport
  rw [authority_bare hcolon hhead]
  split_ifs with hplus
  · rw [hrefuses hplus]
    cases host? rules h <;> rfl
  · rw [(htakes hplus).2]
    cases host? rules h <;> rfl

/-- Of an address that resolves, a URL takes the text exactly if it has the form, and then it has
the same host and port. -/
theorem authority_of_resolve (rules : DomainRules) {ss : List SocketAddress}
    (ha : resolve names a = .ok ss) (he : SocketAddress.read a = .ok e) :
    (Takes rules a → ∃ host, e.host.inUrl? rules = some host
        ∧ authority? rules a.toList = some (host, keptPort e.port))
      ∧ (¬ Takes rules a → authority? rules a.toList = none) := by
  obtain ⟨e', he', -, -, hhost⟩ := read_of_resolve ha
  obtain rfl : e' = e := Except.ok.inj (he'.symm.trans he)
  have hspelling := spelling_of_read he
  generalize hcs : a.toList = cs at hspelling
  cases hspelling with
  | bracketed closed hscoped hport =>
    obtain ⟨htakes, hrefuses⟩ := authority_of_bracketed rules closed hscoped hport
    rw [takes_ip he, hcs]
    exact ⟨fun hform => ⟨_, rfl, htakes hform⟩, hrefuses⟩
  | bare hport =>
    rename_i h p port
    unfold SocketAddress.host at he hhost ⊢
    rcases hip : ip? h with _ | ip
    · simp only [hip, String.toList_ofList] at he hhost ⊢
      have hdrop : (h ++ ':' :: p).drop (h.length + 1) = p := by
        rw [List.drop_append, List.drop_eq_nil_of_le (Nat.le_succ _), Nat.add_sub_cancel_left]
        rfl
      rw [takes_domain he, hcs, String.toList_ofList, hdrop,
        authority_of_name hhost.1 hhost.2 hport]
      refine ⟨fun ⟨hname, hplus⟩ => ?_, fun hform => ?_⟩
      · obtain ⟨host, hhost'⟩ := Option.isSome_iff_exists.1 hname
        refine ⟨host, ?_, ?_⟩
        · rw [Host.inUrl?, String.toList_ofList, hhost']
        · rw [if_neg hplus, hhost']
          rfl
      · split_ifs with hplus
        · rfl
        · rw [Option.not_isSome_iff_eq_none.1 fun hname => hform ⟨hname, hplus⟩]
          rfl
    · simp only [hip] at he ⊢
      rw [takes_ip he, hcs]
      unfold ip? at hip
      split at hip
      · rename_i n hv4
        obtain rfl := Option.some.inj hip
        obtain ⟨htakes, hrefuses⟩ := authority_of_v4 rules hv4 hport
        exact ⟨fun hform => ⟨_, rfl, htakes hform⟩, hrefuses⟩
      · obtain ⟨groups, hv6, rfl⟩ := Option.map_eq_some_iff.1 hip
        obtain ⟨hform, hnone⟩ := authority_of_bare_v6 rules (p := p) hv6
        exact ⟨fun h => absurd h hform, fun _ => hnone⟩

/-- Whether there is a URL is up to the address alone. -/
theorem lookup_eq_none {path ip : String} :
    lookup? rules a path ip = none ↔ authority? rules a.toList = none :=
  Option.map_eq_none_iff

theorem lookup_of_resolve (rules : DomainRules) {ss : List SocketAddress}
    (ha : resolve names a = .ok ss) (he : SocketAddress.read a = .ok e) (path ip : String) :
    (Takes rules a → ∃ u, lookup? rules a path ip = some u ∧ e.host.inUrl? rules = some u.host
        ∧ u.port.getD 80 = e.port)
      ∧ (¬ Takes rules a → lookup? rules a path ip = none) := by
  obtain ⟨htakes, hrefuses⟩ := authority_of_resolve rules ha he
  refine ⟨fun hform => ?_, fun hform => lookup_eq_none.2 (hrefuses hform)⟩
  obtain ⟨host, hhost, hauthority⟩ := htakes hform
  rw [lookup?, hauthority]
  refine ⟨_, rfl, hhost, ?_⟩
  unfold keptPort
  split_ifs with h80
  · exact h80.symm
  · rfl

end Url

end AuctionGate.Net
