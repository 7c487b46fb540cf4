import TranscodeForge.Text.Url
import Mathlib.Data.List.Infix

namespace TranscodeForge.ReturnPath

open Text

variable (checks : UrlChecks) (padded : Bool)

def hostile (ch : Char) : Bool := ch.toNat < 33 || ch == '\\'

-- `none` is a `ValueError` out of `urlsplit`.
def safeNext (value : Chars) : Option Chars :=
  if value.any hostile then some ['/']
  else do
    let parts ← urlsplit checks value
    if parts.scheme ≠ [] ∨ parts.netloc ≠ [] ∨ parts.path.head? ≠ some '/' then some ['/']
    else some (urlunsplit padded [] [] parts.path parts.query)

-- A browser's parse of a reference against an http(s) page: the states of the URL standard up to
-- the point where it is known whose host the result has.
inductive Target where
  | sameOrigin
  | authority (text : Chars)
  | scheme (name : Chars)
deriving DecidableEq, Repr

def slash (ch : Char) : Bool := ch == '/' || ch == '\\'

def trimmed (input : Chars) : Chars :=
  (((input.dropWhile c0ControlOrSpace).reverse.dropWhile c0ControlOrSpace).reverse).filter
    (!tabOrNewline ·)

def authorityOf (input : Chars) : Target :=
  .authority ((input.dropWhile slash).takeWhile fun ch => !(delimits ch || ch == '\\'))

def relativeSlash : Chars → Target
  | c :: rest => if slash c then authorityOf rest else .sameOrigin
  | [] => .sameOrigin

def relative : Chars → Target
  | c :: rest => if slash c then relativeSlash rest else .sameOrigin
  | [] => .sameOrigin

def specialSchemes : List Chars := ["http", "https", "ws", "wss", "ftp"].map String.toList

def browse (pageScheme : Chars) (reference : Chars) : Target :=
  match splitScheme (trimmed reference) with
  | ([], input) => relative input
  | (scheme, input) =>
    if scheme = pageScheme then
      match input with
      | '/' :: '/' :: rest => authorityOf rest
      | input => relative input
    else if scheme ∈ specialSchemes then authorityOf input
    else .scheme scheme

-- U+0000 to U+001F and U+007F to U+009F.
def control (ch : Char) : Bool := ch.toNat < 32 || (127 ≤ ch.toNat && ch.toNat < 160)

structure Local (pageScheme reference : Chars) : Prop where
  rooted : ∃ rest, reference = '/' :: rest ∧ ∀ c, rest.head? = some c → slash c = false
  printable : ∀ ch ∈ reference, control ch = false
  origin : browse pageScheme reference = .sameOrigin

-- What does not come back as a dashboard must not start with four slashes or carry DEL or a C1
-- control.
def Harmless (value : Chars) : Prop :=
  (∃ ch ∈ value, hostile ch) ∨ ¬['/', '/', '/', '/'] <+: value ∧
    ∃ parts, urlsplit checks value = some parts ∧
      (parts.scheme ≠ [] ∨ parts.netloc ≠ [] ∨ parts.path.head? ≠ some '/' ∨
        ∀ ch ∈ parts.path ++ parts.query, control ch = false)

section Parts

variable {checks} {padded} {value url : Chars} {parts : SplitResult}

def pathOf (url : Chars) : Chars := before '?' (before '#' url)

theorem before_sublist (c : Char) (text : Chars) : ∀ ch ∈ before c text, ch ∈ text :=
  fun _ h => (List.takeWhile_sublist _).mem h

theorem after_sublist (c : Char) (text : Chars) : ∀ ch ∈ after c text, ch ∈ text :=
  fun _ h => (List.dropWhile_sublist _).mem (List.mem_of_mem_drop h)

theorem pathOf_sublist (url : Chars) : ∀ ch ∈ pathOf url, ch ∈ url :=
  fun ch h => before_sublist _ _ ch (before_sublist _ _ ch h)

theorem pathOf_start (url : Chars) : pathOf url <+: url := by
  have hquery : pathOf url <+: before '#' url := List.takeWhile_prefix _
  have hfragment : before '#' url <+: url := List.takeWhile_prefix _
  exact hquery.trans hfragment

theorem pathOf_slash (url : Chars) : pathOf ('/' :: url) = '/' :: pathOf url := rfl

theorem pathOf_slashes : ['/', '/'] <+: pathOf url ↔ ['/', '/'] <+: url := by
  constructor
  · exact fun h => h.trans (pathOf_start url)
  · rintro ⟨rest, rfl⟩
    rw [List.cons_append, List.cons_append, List.nil_append, pathOf_slash, pathOf_slash]
    exact ⟨pathOf rest, rfl⟩

-- Neither the filter nor the trimming of `urlsplit` has anything to remove.
theorem cleaned_eq (h : ∀ ch ∈ value, hostile ch = false) : cleaned value = value := by
  have hdrop : value.dropWhile c0ControlOrSpace = value := by
    cases value with
    | nil => rfl
    | cons c rest =>
      apply List.dropWhile_cons_of_neg
      have hc := h c List.mem_cons_self
      simp only [hostile, Bool.or_eq_false_iff, decide_eq_false_iff_not] at hc
      simp only [c0ControlOrSpace, decide_eq_true_eq]
      omega
  rw [cleaned, hdrop, List.filter_eq_self]
  intro ch hch
  have hostileless := h ch hch
  simp only [hostile, Bool.or_eq_false_iff, decide_eq_false_iff_not] at hostileless
  have hne : ∀ c : Char, c.toNat < 33 → ch ≠ c := by
    rintro c hc rfl
    exact hostileless.1 hc
  simp [tabOrNewline, hne '\t' (by decide), hne '\r' (by decide), hne '\n' (by decide)]

theorem splitScheme_slash (rest : Chars) : splitScheme ('/' :: rest) = ([], '/' :: rest) := rfl

theorem splitScheme_nil (h : (splitScheme url).1 = []) : splitScheme url = ([], url) := by
  cases url with
  | nil => rfl
  | cons c rest =>
    simp only [splitScheme] at h ⊢
    split
    · next hscheme =>
      rw [if_pos hscheme] at h
      simp only [Bool.and_eq_true] at hscheme
      have hc : (c != ':') = true := by
        rw [bne_iff_ne]
        rintro rfl
        exact absurd hscheme.1.1 (by decide)
      have hfirst : before ':' (c :: rest) = c :: before ':' rest := List.takeWhile_cons_of_pos hc
      rw [hfirst] at h
      cases h
    · rfl

theorem urlsplit_slashes {rest : Chars} {scheme : Chars}
    (h : splitScheme (cleaned value) = (scheme, '/' :: '/' :: rest)) :
    urlsplit checks value = if checkNetloc checks (splitNetloc rest).1 then
      some (splitRest scheme (splitNetloc rest).1 (splitNetloc rest).2) else none := by
  rw [urlsplit, h]
  rfl

theorem urlsplit_plain {scheme : Chars} (h : splitScheme (cleaned value) = (scheme, url))
    (hurl : ¬['/', '/'] <+: url) : urlsplit checks value = some (splitRest scheme [] url) := by
  rw [urlsplit, h]
  split
  · next heq =>
    cases heq
    exact (hurl ⟨_, rfl⟩).elim
  · next heq =>
    cases heq
    rfl

theorem splitRest_sublist {scheme netloc : Chars} : ∀ ch ∈ (splitRest scheme netloc url).path ++
    (splitRest scheme netloc url).query, ch ∈ url := by
  intro ch hch
  rcases List.mem_append.mp hch with hch | hch
  · exact pathOf_sublist _ ch hch
  · exact before_sublist _ _ ch (after_sublist _ _ ch hch)

-- A value the filter lets through, with no scheme and no authority, has its path at its start or
-- behind the two slashes of an empty authority.
theorem urlsplit_local (hclean : ∀ ch ∈ value, hostile ch = false)
    (hsplit : urlsplit checks value = some parts) (hscheme : parts.scheme = [])
    (hnetloc : parts.netloc = []) :
    (['/', '/'] <+: parts.path ↔ ['/', '/', '/', '/'] <+: value) ∧
      (∀ ch ∈ parts.path ++ parts.query, ch ∈ value) := by
  by_cases hslashes : ∃ rest, (splitScheme value).2 = '/' :: '/' :: rest
  · obtain ⟨rest, hrest⟩ := hslashes
    have hpair : splitScheme (cleaned value) = ((splitScheme value).1, '/' :: '/' :: rest) := by
      rw [cleaned_eq hclean, ← hrest]
    rw [urlsplit_slashes hpair] at hsplit
    obtain ⟨-, hparts⟩ := Option.ite_none_right_eq_some.mp hsplit
    obtain rfl := Option.some.inj hparts
    have hvalue : value = '/' :: '/' :: rest := by
      rw [← hrest, splitScheme_nil hscheme]
    have hjoin := List.takeWhile_append_dropWhile (p := (!delimits ·)) (l := rest)
    have hempty : rest.takeWhile (!delimits ·) = [] := hnetloc
    have hwhole : (splitNetloc rest).2 = rest := by
      rwa [hempty, List.nil_append] at hjoin
    rw [hwhole, hvalue]
    refine ⟨?_, fun ch hch => ?_⟩
    · change ['/', '/'] <+: pathOf rest ↔ _
      rw [pathOf_slashes]
      simp
    · have hin : ch ∈ rest := splitRest_sublist ch hch
      exact List.mem_cons_of_mem _ (List.mem_cons_of_mem _ hin)
  · have hpair : splitScheme (cleaned value) = ((splitScheme value).1, (splitScheme value).2) := by
      rw [cleaned_eq hclean]
    have hplain : ¬['/', '/'] <+: (splitScheme value).2 := by
      rintro ⟨rest, hrest⟩
      exact hslashes ⟨rest, hrest.symm⟩
    rw [urlsplit_plain hpair hplain] at hsplit
    obtain rfl := Option.some.inj hsplit
    have hvalue : (splitScheme value).2 = value := by
      rw [splitScheme_nil hscheme]
    rw [hvalue] at hplain ⊢
    refine ⟨?_, splitRest_sublist⟩
    change ['/', '/'] <+: pathOf value ↔ _
    rw [pathOf_slashes]
    refine ⟨fun h => (hplain h).elim, fun ⟨rest, hrest⟩ => ?_⟩
    exact ⟨'/' :: '/' :: rest, hrest⟩

-- Four slashes are an empty authority and a path that starts with two.
theorem urlsplit_four {rest : Chars} (hclean : ∀ ch ∈ '/' :: '/' :: '/' :: '/' :: rest, hostile ch = false)
    (hsplit : urlsplit checks ('/' :: '/' :: '/' :: '/' :: rest) = some parts) :
    parts.scheme = [] ∧ parts.netloc = [] ∧ parts.path.head? = some '/' := by
  have hpair : splitScheme (cleaned ('/' :: '/' :: '/' :: '/' :: rest)) =
      ([], '/' :: '/' :: '/' :: '/' :: rest) := by
    rw [cleaned_eq hclean, splitScheme_slash]
  rw [urlsplit_slashes hpair] at hsplit
  obtain ⟨-, hparts⟩ := Option.ite_none_right_eq_some.mp hsplit
  obtain rfl := Option.some.inj hparts
  exact ⟨rfl, rfl, rfl⟩

section Browse

variable {pageScheme reference rest : Chars}

theorem trimmed_eq (h : ∀ ch ∈ reference, 33 ≤ ch.toNat) : trimmed reference = reference := by
  have hdrop : ∀ cs : Chars, (∀ ch ∈ cs, 33 ≤ ch.toNat) → cs.dropWhile c0ControlOrSpace = cs := by
    intro cs hcs
    cases cs with
    | nil => rfl
    | cons c rest =>
      apply List.dropWhile_cons_of_neg
      have hc := hcs c List.mem_cons_self
      simp only [c0ControlOrSpace, decide_eq_true_eq]
      omega
  have hfilter : reference.filter (!tabOrNewline ·) = reference := by
    rw [List.filter_eq_self]
    intro ch hch
    have hne : ∀ c : Char, c.toNat < 33 → ch ≠ c := by
      rintro c hc rfl
      have hge := h ch hch
      omega
    simp [tabOrNewline, hne '\t' (by decide), hne '\r' (by decide), hne '\n' (by decide)]
  rw [trimmed, hdrop reference h, hdrop reference.reverse fun ch hch => h ch (List.mem_reverse.mp hch),
    List.reverse_reverse, hfilter]

theorem browse_rooted (h : ∀ ch ∈ '/' :: rest, 33 ≤ ch.toNat)
    (hhead : ∀ c, rest.head? = some c → slash c = false) :
    browse pageScheme ('/' :: rest) = .sameOrigin := by
  rw [browse, trimmed_eq h, splitScheme_slash]
  cases rest with
  | nil => rfl
  | cons c rest =>
    change (if slash c then authorityOf rest else .sameOrigin) = Target.sameOrigin
    rw [hhead c rfl]
    rfl

end Browse

theorem root_local (pageScheme : Chars) : Local pageScheme ['/'] :=
  have hclean : ∀ ch ∈ ['/'], control ch = false := List.forall_mem_singleton.mpr (by decide)
  have hprinted : ∀ ch ∈ ['/'], 33 ≤ ch.toNat := List.forall_mem_singleton.mpr (by decide)
  ⟨⟨[], rfl, nofun⟩, hclean, browse_rooted hprinted nofun⟩

-- What comes back of a rooted path.
theorem local_unsplit_iff {pageScheme path query : Chars} (hpath : path.head? = some '/')
    (hclean : ∀ ch ∈ path ++ query, hostile ch = false) :
    Local pageScheme (urlunsplit padded [] [] path query) ↔
      ¬['/', '/'] <+: path ∧ ∀ ch ∈ path ++ query, control ch = false := by
  obtain ⟨rest, rfl⟩ : ∃ rest, path = '/' :: rest := by
    cases path with
    | nil => cases hpath
    | cons c rest =>
      cases hpath
      exact ⟨rest, rfl⟩
  by_cases hslashes : ['/', '/'] <+: '/' :: rest
  · refine iff_of_false (fun hlocal => ?_) fun h => h.1 hslashes
    obtain ⟨tail, htail⟩ := hslashes
    obtain ⟨r, hr, hhead⟩ := hlocal.rooted
    have hstart : ∃ more, urlunsplit padded [] [] ('/' :: rest) query = '/' :: '/' :: more := by
      rw [← htail]
      cases padded <;> by_cases hquery : query = [] <;> simp [urlunsplit, hquery]
    obtain ⟨more, hmore⟩ := hstart
    rw [hmore] at hr
    cases hr
    exact absurd (hhead '/' rfl) (by decide)
  · have hplain : urlunsplit padded [] [] ('/' :: rest) query =
        '/' :: rest ++ (if query = [] then [] else '?' :: query) := by
      by_cases hquery : query = [] <;> simp [urlunsplit, hquery, hslashes]
    rw [hplain]
    constructor
    · intro hlocal
      refine ⟨hslashes, fun ch hch => ?_⟩
      refine hlocal.printable ch ?_
      rcases List.mem_append.mp hch with hch | hch
      · exact List.mem_append_left _ hch
      · refine List.mem_append_right _ ?_
        rw [if_neg (List.ne_nil_of_mem hch)]
        exact List.mem_cons_of_mem _ hch
    · rintro ⟨-, hprintable⟩
      have hmem : ∀ ch ∈ '/' :: rest ++ (if query = [] then [] else '?' :: query),
          ch ∈ '/' :: rest ++ query ∨ ch = '?' := by
        intro ch hch
        rcases List.mem_append.mp hch with hch | hch
        · exact .inl (List.mem_append_left _ hch)
        · split at hch
          · cases hch
          · rcases List.mem_cons.mp hch with rfl | hch
            · exact .inr rfl
            · exact .inl (List.mem_append_right _ hch)
      have hhead : ∀ c, (rest ++ (if query = [] then [] else '?' :: query)).head? = some c →
          slash c = false := by
        intro c hc
        cases rest with
        | nil =>
          split at hc
          · cases hc
          · cases hc
            rfl
        | cons c' rest =>
          cases hc
          have hne : c ≠ '/' := by
            rintro rfl
            exact hslashes ⟨rest, rfl⟩
          have hharmless := hclean c (by simp)
          simp only [hostile, Bool.or_eq_false_iff] at hharmless
          simp [slash, hne, hharmless.2]
      refine ⟨⟨_, rfl, hhead⟩, fun ch hch => ?_, browse_rooted (fun ch hch => ?_) hhead⟩
      · rcases hmem ch hch with hch | rfl
        · exact hprintable ch hch
        · rfl
      · rcases hmem ch hch with hch | rfl
        · have hharmless := hclean ch hch
          simp only [hostile, Bool.or_eq_false_iff, decide_eq_false_iff_not] at hharmless
          omega
        · decide

end Parts

-- The value comes back as a local path exactly when it is one of these.
theorem safeNext_local (pageScheme value : Chars) :
    (∃ reference, safeNext checks padded value = some reference ∧ Local pageScheme reference) ↔
      Harmless checks value := by
  unfold safeNext Harmless
  by_cases hany : value.any hostile = true
  · rw [if_pos hany]
    obtain ⟨ch, hch, hhostile⟩ := List.any_eq_true.mp hany
    exact iff_of_true ⟨_, rfl, root_local _⟩ (.inl ⟨ch, hch, hhostile⟩)
  · have hclean : ∀ ch ∈ value, hostile ch = false := by
      intro ch hch
      by_contra hhostile
      exact hany (List.any_eq_true.mpr ⟨ch, hch, by simpa using hhostile⟩)
    have hnone : ¬∃ ch ∈ value, hostile ch = true := by
      rintro ⟨ch, hch, hhostile⟩
      rw [hclean ch hch] at hhostile
      cases hhostile
    rw [if_neg hany]
    cases hsplit : urlsplit checks value with
    | none =>
      refine iff_of_false (fun ⟨_, h, _⟩ => (by cases h)) ?_
      rintro (h | ⟨-, _, h, -⟩)
      · exact hnone h
      · cases h
    | some parts =>
      simp only [Option.bind_eq_bind, Option.bind_some, hnone, false_or, Option.some.injEq,
        exists_eq_left']
      by_cases haway : parts.scheme ≠ [] ∨ parts.netloc ≠ [] ∨ parts.path.head? ≠ some '/'
      · rw [if_pos haway]
        refine iff_of_true ⟨_, rfl, root_local _⟩ ⟨?_, by tauto⟩
        rintro ⟨rest, rfl⟩
        obtain ⟨hscheme, hnetloc, hpath⟩ := urlsplit_four hclean hsplit
        rcases haway with h | h | h
        · exact h hscheme
        · exact h hnetloc
        · exact h hpath
      · rw [if_neg haway]
        have hall : parts.scheme = [] ∧ parts.netloc = [] ∧ parts.path.head? = some '/' := by
          tauto
        obtain ⟨hscheme, hnetloc, hpath⟩ := hall
        obtain ⟨hslashes, hmem⟩ := urlsplit_local hclean hsplit hscheme hnetloc
        have hiff : Local pageScheme (urlunsplit padded [] [] parts.path parts.query) ↔ _ :=
          local_unsplit_iff hpath fun ch hch => hclean ch (hmem ch hch)
        simp only [hscheme, hnetloc, hpath, ne_eq, not_true_eq_false, false_or]
        rw [← hslashes, ← hiff]
        constructor
        · rintro ⟨reference, hreference, hlocal⟩
          cases hreference
          exact hlocal
        · exact fun hlocal => ⟨_, rfl, hlocal⟩

def asciiChecks : UrlChecks := ⟨id, fun _ => false, id⟩

-- The browser is sent to `evil.example`, whichever way the parts are put together.
theorem safeNext_leaves :
    (safeNext asciiChecks true "////evil.example".toList).map (browse "https".toList) =
        some (.authority "evil.example".toList) ∧
      (safeNext asciiChecks false "////evil.example".toList).map (browse "https".toList) =
        some (.authority "evil.example".toList) := by
  decide

end TranscodeForge.ReturnPath
