import TranscodeForge.Text.Url

-- A URL taken apart with nothing lost, and what `urlsplit` drops of it.
namespace Text

def found (c : Char) (text : Chars) : Option Chars := if c ∈ text then some (after c text) else none

def portText (netloc : Chars) : Chars :=
  let info := afterLast '@' netloc
  if '[' ∈ info then after ']' (after '[' info) else info.dropWhile (· != ':')

def upToPort (netloc : Chars) : Chars := netloc.take (netloc.length - (portText netloc).length)

@[ext]
structure Authority where
  upToPort : Chars
  port : Chars
deriving DecidableEq, Repr

@[ext]
structure Components where
  scheme : Option Chars
  authority : Option Authority
  path : Chars
  query : Option Chars
  fragment : Option Chars
deriving DecidableEq, Repr

def writtenScheme (url : Chars) : Option Chars :=
  if (splitScheme url).1 = [] then none else some (before ':' url)

def componentsOf (scheme : Option Chars) (authority : Option Authority) (rest : Chars) : Components where
  scheme := scheme
  authority := authority
  path := before '?' (before '#' rest)
  query := found '?' (before '#' rest)
  fragment := found '#' rest

def components (url : Chars) : Components :=
  match (splitScheme url).2 with
  | '/' :: '/' :: rest => componentsOf (writtenScheme url)
      (some ⟨upToPort (splitNetloc rest).1, portText (splitNetloc rest).1⟩) (splitNetloc rest).2
  | rest => componentsOf (writtenScheme url) none rest

-- The characters dropped at the start, and those dropped later, each with the number of characters
-- kept before it.
def gaps : Nat → Chars → List (Nat × Char)
  | _, [] => []
  | kept, c :: text => if tabOrNewline c then (kept, c) :: gaps kept text else gaps (kept + 1) text

def noise (url : Chars) : Chars × List (Nat × Char) :=
  (url.takeWhile c0ControlOrSpace, gaps 0 (url.dropWhile c0ControlOrSpace))

namespace Authority

def text (a : Authority) : Chars := a.upToPort ++ a.port

end Authority

namespace Components

variable (c : Components)

def schemeText : Chars := c.scheme.elim [] (· ++ [':'])

def authorityText : Chars := c.authority.elim [] fun a => '/' :: '/' :: a.text

def text : Chars := c.schemeText ++ c.authorityText ++
  (c.path ++ c.query.elim [] ('?' :: ·) ++ c.fragment.elim [] ('#' :: ·))

def withoutPort : Components := { c with authority := c.authority.map fun a => { a with port := [] } }

end Components

section Lossless

variable {url netloc rest : Chars} {checks : UrlChecks} {parts : SplitResult}

theorem before_append_found (c : Char) (text : Chars) :
    before c text ++ (found c text).elim [] (c :: ·) = text := by
  induction text with
  | nil => rfl
  | cons d text ih =>
    by_cases hd : d = c
    · subst hd
      simp [before, found, after]
    · have hd' : ¬ c = d := fun h => hd h.symm
      have hbefore : before c (d :: text) = d :: before c text := by simp [before, hd]
      have hfound : found c (d :: text) = found c text := by simp [found, after, hd, hd']
      rw [hbefore, hfound, List.cons_append, ih]

theorem found_getD (c : Char) (text : Chars) : (found c text).getD [] = after c text := by
  unfold found
  split
  · rfl
  · next hc =>
    have hnone : text.dropWhile (· != c) = [] := by
      rw [List.dropWhile_eq_nil_iff]
      intro d hd
      rw [bne_iff_ne]
      rintro rfl
      exact hc hd
    rw [after, hnone]
    rfl

theorem after_suffix (c : Char) (text : Chars) : after c text <:+ text :=
  (List.drop_suffix _ _).trans (List.dropWhile_suffix _)

theorem afterLast_suffix (c : Char) (text : Chars) : afterLast c text <:+ text := by
  have hstart : text.reverse.takeWhile (· != c) <+: text.reverse := List.takeWhile_prefix _
  simpa [afterLast] using List.reverse_suffix.mpr hstart

theorem portText_suffix (netloc : Chars) : portText netloc <:+ netloc := by
  have hinfo := afterLast_suffix '@' netloc
  simp only [portText]
  split
  · exact ((after_suffix _ _).trans (after_suffix _ _)).trans hinfo
  · exact (List.dropWhile_suffix _).trans hinfo

theorem upToPort_append_portText (netloc : Chars) : upToPort netloc ++ portText netloc = netloc := by
  obtain ⟨start, hstart⟩ := portText_suffix netloc
  have hlength : netloc.length - (portText netloc).length = start.length := by
    have htotal := congrArg List.length hstart
    rw [List.length_append] at htotal
    omega
  have htake : upToPort netloc = start := by
    rw [upToPort, hlength]
    calc netloc.take start.length = (start ++ portText netloc).take start.length := by rw [hstart]
      _ = start := List.take_left
  rw [htake, hstart]

theorem splitScheme_join (url : Chars) :
    (writtenScheme url).elim [] (· ++ [':']) ++ (splitScheme url).2 = url := by
  unfold writtenScheme
  cases url with
  | nil => rfl
  | cons c url =>
    have hsplit : splitScheme (c :: url) =
        if c.isAlpha && ':' ∈ c :: url && (before ':' (c :: url)).all schemeChar then
          (lower (before ':' (c :: url)), after ':' (c :: url))
        else ([], c :: url) := rfl
    rw [hsplit]
    split
    · next hscheme =>
      simp only [Bool.and_eq_true, decide_eq_true_eq] at hscheme
      have hne : c ≠ ':' := by
        rintro rfl
        exact absurd hscheme.1.1 (by decide)
      have hnonempty : ¬ lower (before ':' (c :: url)) = [] := by simp [lower, before, hne]
      have hfound := before_append_found ':' (c :: url)
      rw [found, if_pos hscheme.1.2] at hfound
      rw [if_neg hnonempty]
      simpa using hfound
    · rfl

theorem componentsOf_text (scheme : Option Chars) (authority : Option Authority) (rest : Chars) :
    (componentsOf scheme authority rest).text =
      scheme.elim [] (· ++ [':']) ++ authority.elim [] (fun a => '/' :: '/' :: a.text) ++ rest := by
  have hpath := before_append_found '?' (before '#' rest)
  have hrest := before_append_found '#' rest
  change _ ++ _ ++ (before '?' (before '#' rest) ++ (found '?' (before '#' rest)).elim [] ('?' :: ·) ++
    (found '#' rest).elim [] ('#' :: ·)) = _
  rw [hpath, hrest]
  rfl

theorem text_components (url : Chars) : (components url).text = url := by
  have hjoin := splitScheme_join url
  unfold components
  split
  · next rest hrest =>
    have hnetloc : (splitNetloc rest).1 ++ (splitNetloc rest).2 = rest :=
      List.takeWhile_append_dropWhile
    rw [hrest] at hjoin
    rw [componentsOf_text, Option.elim_some, Authority.text, upToPort_append_portText,
      List.append_assoc, List.cons_append, List.cons_append, hnetloc, hjoin]
  · rw [componentsOf_text, Option.elim_none, List.append_nil, hjoin]

theorem components_injective : Function.Injective components := by
  intro url url' h
  rw [← text_components url, h, text_components]

-- What is left of the components.
structure Keeps (c : Components) (parts : SplitResult) : Prop where
  path : parts.path = c.path
  query : parts.query = c.query.getD []
  fragment : parts.fragment = c.fragment.getD []

theorem splitRest_keeps (scheme netloc rest : Chars) (written : Option Chars)
    (authority : Option Authority) :
    Keeps (componentsOf written authority rest) (splitRest scheme netloc rest) :=
  ⟨rfl, (found_getD _ _).symm, (found_getD _ _).symm⟩

theorem urlsplit_keeps (h : urlsplit checks url = some parts) :
    Keeps (components (cleaned url)) parts := by
  unfold urlsplit at h
  unfold components
  split at h
  · next heq =>
    rw [heq]
    obtain ⟨-, hparts⟩ := Option.ite_none_right_eq_some.mp h
    cases hparts
    exact splitRest_keeps ..
  · next heq =>
    rw [heq]
    cases h
    split
    · next hne _ _ hrest => exact (hne _ hrest).elim
    · exact splitRest_keeps ..

end Lossless

section Noise

variable {url url' u v : Chars} {kept : Nat}

theorem le_of_mem_gaps {gap : Nat × Char} (h : gap ∈ gaps kept u) : kept ≤ gap.1 := by
  induction u generalizing kept with
  | nil => cases h
  | cons c u ih =>
    rw [gaps] at h
    split at h
    · rcases List.mem_cons.mp h with rfl | h
      · exact Nat.le_refl _
      · exact ih h
    · exact Nat.le_of_succ_le (ih h)

theorem gaps_eq_nil : gaps kept u = [] ↔ u.filter (!tabOrNewline ·) = u := by
  induction u generalizing kept with
  | nil => simp [gaps]
  | cons c u ih =>
    rw [gaps]
    by_cases hc : tabOrNewline c = true
    · have hne : ¬ (c :: u).filter (!tabOrNewline ·) = c :: u := by
        rw [List.filter_eq_self]
        intro hall
        simpa [hc] using hall c List.mem_cons_self
      rw [if_pos hc]
      exact iff_of_false (List.cons_ne_nil _ _) hne
    · rw [if_neg hc, List.filter_cons_of_pos (by simpa using hc), ih]
      simp

theorem eq_of_gaps (hgaps : gaps kept u = gaps kept v)
    (hkept : u.filter (!tabOrNewline ·) = v.filter (!tabOrNewline ·)) : u = v := by
  induction u generalizing kept v with
  | nil =>
    cases v with
    | nil => rfl
    | cons d v =>
      by_cases hd : tabOrNewline d = true
      · simp [gaps, hd] at hgaps
      · simp [hd] at hkept
  | cons c u ih =>
    by_cases hc : tabOrNewline c = true
    · rw [gaps, if_pos hc] at hgaps
      cases v with
      | nil => cases hgaps
      | cons d v =>
        by_cases hd : tabOrNewline d = true
        · rw [gaps, if_pos hd] at hgaps
          obtain ⟨hhead, hrest⟩ := List.cons.inj hgaps
          have hkept' : u.filter (!tabOrNewline ·) = v.filter (!tabOrNewline ·) := by
            simpa [hc, hd] using hkept
          rw [(Prod.mk.inj hhead).2, ih hrest hkept']
        · rw [gaps, if_neg hd] at hgaps
          have hlater : kept + 1 ≤ kept := le_of_mem_gaps (hgaps ▸ List.mem_cons_self)
          omega
    · rw [gaps, if_neg hc] at hgaps
      cases v with
      | nil => simp [hc] at hkept
      | cons d v =>
        by_cases hd : tabOrNewline d = true
        · rw [gaps, if_pos hd] at hgaps
          have hlater : kept + 1 ≤ kept := le_of_mem_gaps (hgaps ▸ List.mem_cons_self)
          omega
        · rw [gaps, if_neg hd] at hgaps
          have hkept' : c = d ∧ u.filter (!tabOrNewline ·) = v.filter (!tabOrNewline ·) := by
            simpa [hc, hd] using hkept
          rw [hkept'.1, ih hgaps hkept'.2]

theorem eq_of_noise (hnoise : noise url = noise url') (hcleaned : cleaned url = cleaned url') :
    url = url' := by
  obtain ⟨hstart, hgaps⟩ := Prod.mk.inj hnoise
  have hrest := eq_of_gaps hgaps hcleaned
  rw [← List.takeWhile_append_dropWhile (p := c0ControlOrSpace) (l := url), hstart, hrest,
    List.takeWhile_append_dropWhile]

theorem noise_eq_nil : noise url = ([], []) ↔ cleaned url = url := by
  have hsplit := List.takeWhile_append_dropWhile (p := c0ControlOrSpace) (l := url)
  constructor
  · intro h
    obtain ⟨hstart, hgaps⟩ := Prod.mk.inj h
    rw [hstart, List.nil_append] at hsplit
    rw [cleaned, gaps_eq_nil.mp hgaps, hsplit]
  · intro h
    have hshort : (cleaned url).length ≤ (url.dropWhile c0ControlOrSpace).length :=
      List.length_filter_le _ _
    have hlength := congrArg List.length hsplit
    rw [List.length_append] at hlength
    rw [h] at hshort
    have hstart : url.takeWhile c0ControlOrSpace = [] := List.eq_nil_of_length_eq_zero (by omega)
    rw [hstart, List.nil_append] at hsplit
    have hgaps : gaps 0 (url.dropWhile c0ControlOrSpace) = [] := by
      rw [gaps_eq_nil]
      exact h.trans hsplit.symm
    rw [noise, hstart, hgaps]

end Noise

end Text
