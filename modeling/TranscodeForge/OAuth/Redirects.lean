import TranscodeForge.Text.Components

namespace TranscodeForge.Redirects

open Text

variable (checks : UrlChecks)

def loopbackHosts : List Chars := ["localhost", "127.0.0.1", "::1"].map String.toList

def loopback (parts : SplitResult) : Bool :=
  parts.scheme = "http".toList && (parts.hostname checks).any (· ∈ loopbackHosts)

-- `none` is a `ValueError`, out of `urlsplit` or out of a port.
def redirectMatches (registered requested : Chars) : Option Bool := do
  let reg ← urlsplit checks registered
  let req ← urlsplit checks requested
  if reg.fragment ≠ [] ∨ req.fragment ≠ [] then pure false
  else if (reg.scheme, reg.hostname checks, reg.path, reg.query) ≠
      (req.scheme, req.hostname checks, req.path, req.query) then pure false
  else if loopback checks reg then pure true
  else do
    let regPort ← reg.port
    let reqPort ← req.port
    pure (regPort = reqPort)

def anyMatches : List Chars → Chars → Option Bool
  | [], _ => some false
  | registered :: uris, requested => do
    if ← redirectMatches checks registered requested then pure true
    else anyMatches uris requested

-- What `authorize` asks of a client's redirect URIs.
def redirectRegistered (uris : List Chars) (requested : Chars) : Option Bool :=
  if requested = [] then some false else anyMatches checks uris requested

-- A URI has nothing that `urlsplit` strips, and its port is digits.
structure LoopbackUri (url : Chars) (parts : SplitResult) : Prop where
  splits : urlsplit checks url = some parts
  clean : cleaned url = url
  isLoopback : loopback checks parts = true
  digits : parts.hostinfo.2.all Char.isDigit = true

def Exact (registered requested : Chars) : Prop :=
  registered = requested ∨
    (∃ reg, LoopbackUri checks registered reg) ∧ (∃ req, LoopbackUri checks requested req) ∧
      (components registered).withoutPort = (components requested).withoutPort

-- The parts that are compared are the same.
structure SameParts (reg req : SplitResult) : Prop where
  regFragment : reg.fragment = []
  reqFragment : req.fragment = []
  scheme : reg.scheme = req.scheme
  hostname : reg.hostname checks = req.hostname checks
  path : reg.path = req.path
  query : reg.query = req.query
  port : loopback checks reg = true ∨ ∃ port, reg.port = some port ∧ req.port = some port

-- What `urlsplit` drops or folds is written the same way: controls, blanks, tabs and newlines, the
-- case of the scheme, user, case and brackets of the host, an empty authority, query or fragment,
-- and the port but for that of a loopback URI.
structure Alike (registered requested : Chars) (reg req : SplitResult) : Prop where
  noise : noise registered = noise requested
  scheme : (components (cleaned registered)).scheme = (components (cleaned requested)).scheme
  upToPort : (components (cleaned registered)).authority.map Authority.upToPort =
    (components (cleaned requested)).authority.map Authority.upToPort
  port : (components (cleaned registered)).authority.map Authority.port =
      (components (cleaned requested)).authority.map Authority.port ∨
    Text.noise registered = ([], []) ∧ loopback checks reg = true ∧
      reg.hostinfo.2.all Char.isDigit = true ∧ req.hostinfo.2.all Char.isDigit = true
  query : (components (cleaned registered)).query.isSome = (components (cleaned requested)).query.isSome
  fragment : (components (cleaned registered)).fragment.isSome =
    (components (cleaned requested)).fragment.isSome

def SpelledAlike (registered requested : Chars) : Prop :=
  ∀ reg req, urlsplit checks registered = some reg → urlsplit checks requested = some req →
    SameParts checks reg req → Alike checks registered requested reg req

section Matching

variable {checks} {registered requested : Chars} {reg req : SplitResult}

theorem redirectMatches_iff : redirectMatches checks registered requested = some true ↔
    ∃ reg req, urlsplit checks registered = some reg ∧ urlsplit checks requested = some req ∧
      SameParts checks reg req := by
  cases hreg : urlsplit checks registered with
  | none => simp [redirectMatches, hreg]
  | some reg =>
    cases hreq : urlsplit checks requested with
    | none => simp [redirectMatches, hreg, hreq]
    | some req =>
      simp only [redirectMatches, hreg, hreq, Option.bind_eq_bind, Option.bind_some,
        Option.some.injEq, exists_and_left, exists_eq_left', ne_eq, Prod.mk.injEq]
      constructor
      · intro h
        split at h
        · cases h
        · next hfragment =>
          simp only [not_or, not_not] at hfragment
          split at h
          · cases h
          · next hparts =>
            obtain ⟨hscheme, hhost, hpath, hquery⟩ := not_not.mp hparts
            refine ⟨hfragment.1, hfragment.2, hscheme, hhost, hpath, hquery, ?_⟩
            split at h
            · next hloopback => exact .inl hloopback
            · obtain ⟨port, hport, h⟩ := Option.bind_eq_some_iff.mp h
              obtain ⟨port', hport', h⟩ := Option.bind_eq_some_iff.mp h
              have hequal : port = port' := by simpa using h
              exact .inr ⟨port, hport, hequal ▸ hport'⟩
      · intro h
        have hfragment : ¬ (¬ reg.fragment = [] ∨ ¬ req.fragment = []) := by
          simp [h.regFragment, h.reqFragment]
        rw [if_neg hfragment, if_neg (not_not.mpr ⟨h.scheme, h.hostname, h.path, h.query⟩)]
        split
        · rfl
        · next hremote =>
          obtain ⟨port, hport, hport'⟩ := h.port.resolve_left hremote
          rw [hport, hport']
          simp

theorem loopback_congr (h : SameParts checks reg req) : loopback checks req = loopback checks reg := by
  rw [loopback, loopback, h.scheme, h.hostname]

theorem eq_of_isSome {x y : Option Chars} (hsome : x.isSome = y.isSome) (hvalue : x.getD [] = y.getD []) :
    x = y := by
  cases x <;> cases y <;> simp_all

theorem withoutPort_eq_iff {c c' : Components} : c.withoutPort = c'.withoutPort ↔
    c.scheme = c'.scheme ∧ c.authority.map Authority.upToPort = c'.authority.map Authority.upToPort ∧
      c.path = c'.path ∧ c.query = c'.query ∧ c.fragment = c'.fragment := by
  have hauthority : c.authority.map (fun a => { a with port := [] }) =
      c'.authority.map (fun a => { a with port := [] }) ↔
      c.authority.map Authority.upToPort = c'.authority.map Authority.upToPort := by
    cases c.authority <;> cases c'.authority <;> simp
  simp only [Components.withoutPort, Components.mk.injEq, hauthority]

theorem eq_of_withoutPort {c c' : Components} (h : c.withoutPort = c'.withoutPort)
    (hport : c.authority.map Authority.port = c'.authority.map Authority.port) : c = c' := by
  obtain ⟨hscheme, hupToPort, hpath, hquery, hfragment⟩ := withoutPort_eq_iff.mp h
  have hauthority : c.authority = c'.authority := by
    cases ha : c.authority with
    | none =>
      rw [ha] at hport
      exact (Option.map_eq_none_iff.mp hport.symm).symm
    | some a =>
      rw [ha] at hport hupToPort
      obtain ⟨a', ha', hport'⟩ := Option.map_eq_some_iff.mp hport.symm
      rw [ha'] at hupToPort
      have hstart : a.upToPort = a'.upToPort := Option.some.inj hupToPort
      rw [ha', Authority.ext hstart hport'.symm]
  exact Components.ext hscheme hauthority hpath hquery hfragment

theorem exact_iff_alike (hreg : urlsplit checks registered = some reg)
    (hreq : urlsplit checks requested = some req) (hsame : SameParts checks reg req) :
    Exact checks registered requested ↔ Alike checks registered requested reg req := by
  have hkeeps := urlsplit_keeps hreg
  have hkeeps' := urlsplit_keeps hreq
  constructor
  · rintro (rfl | ⟨⟨reg', hregUri⟩, ⟨req', hreqUri⟩, hcomponents⟩)
    · exact ⟨rfl, rfl, rfl, .inl rfl, rfl, rfl⟩
    · obtain rfl := Option.some.inj (hregUri.splits.symm.trans hreg)
      obtain rfl := Option.some.inj (hreqUri.splits.symm.trans hreq)
      obtain ⟨hscheme, hupToPort, -, hquery, hfragment⟩ := withoutPort_eq_iff.mp hcomponents
      have hnoise := noise_eq_nil.mpr hregUri.clean
      have hnoise' := noise_eq_nil.mpr hreqUri.clean
      rw [← hregUri.clean, ← hreqUri.clean] at hscheme hupToPort hquery hfragment
      exact ⟨hnoise.trans hnoise'.symm, hscheme, hupToPort,
        .inr ⟨hnoise, hregUri.isLoopback, hregUri.digits, hreqUri.digits⟩,
        congrArg Option.isSome hquery, congrArg Option.isSome hfragment⟩
  · intro h
    have hpath : (components (cleaned registered)).path = (components (cleaned requested)).path := by
      rw [← hkeeps.path, ← hkeeps'.path, hsame.path]
    have hquery : (components (cleaned registered)).query = (components (cleaned requested)).query := by
      apply eq_of_isSome h.query
      rw [← hkeeps.query, ← hkeeps'.query, hsame.query]
    have hfragment : (components (cleaned registered)).fragment =
        (components (cleaned requested)).fragment := by
      apply eq_of_isSome h.fragment
      rw [← hkeeps.fragment, ← hkeeps'.fragment, hsame.regFragment, hsame.reqFragment]
    have hwithoutPort : (components (cleaned registered)).withoutPort =
        (components (cleaned requested)).withoutPort :=
      withoutPort_eq_iff.mpr ⟨h.scheme, h.upToPort, hpath, hquery, hfragment⟩
    rcases h.port with hport | ⟨hnoise, hloopback, hdigits, hdigits'⟩
    · have hcomponents : components (cleaned registered) = components (cleaned requested) :=
        eq_of_withoutPort hwithoutPort hport
      exact .inl (eq_of_noise h.noise (components_injective hcomponents))
    · have hclean : cleaned registered = registered := noise_eq_nil.mp hnoise
      have hclean' : cleaned requested = requested := noise_eq_nil.mp (h.noise.symm.trans hnoise)
      rw [hclean, hclean'] at hwithoutPort
      refine .inr ⟨⟨reg, hreg, hclean, hloopback, hdigits⟩, ⟨req, hreq, hclean', ?_, hdigits'⟩,
        hwithoutPort⟩
      rw [loopback_congr hsame, hloopback]

theorem anyMatches_matches {uris : List Chars} (h : anyMatches checks uris requested = some true) :
    ∃ registered ∈ uris, redirectMatches checks registered requested = some true := by
  induction uris with
  | nil => cases h
  | cons registered uris ih =>
    obtain ⟨answer, hanswer, h⟩ := Option.bind_eq_some_iff.mp h
    cases answer with
    | true => exact ⟨registered, List.mem_cons_self, hanswer⟩
    | false =>
      obtain ⟨found, hfound, hmatches⟩ := ih h
      exact ⟨found, List.mem_cons_of_mem _ hfound, hmatches⟩

theorem redirectRegistered_exact {uris : List Chars}
    (hspelled : ∀ registered ∈ uris, SpelledAlike checks registered requested)
    (h : redirectRegistered checks uris requested = some true) :
    ∃ registered ∈ uris, Exact checks registered requested := by
  unfold redirectRegistered at h
  split at h
  · cases h
  · obtain ⟨registered, hregistered, hmatches⟩ := anyMatches_matches h
    obtain ⟨reg, req, hreg, hreq, hsame⟩ := redirectMatches_iff.mp hmatches
    exact ⟨registered, hregistered, (exact_iff_alike hreg hreq hsame).mpr
      (hspelled registered hregistered reg req hreg hreq hsame)⟩

end Matching

theorem redirectMatches_exact_iff (registered requested : Chars) :
    (redirectMatches checks registered requested = some true → Exact checks registered requested) ↔
      SpelledAlike checks registered requested := by
  rw [redirectMatches_iff]
  constructor
  · intro h reg req hreg hreq hsame
    exact (exact_iff_alike hreg hreq hsame).mp (h ⟨reg, req, hreg, hreq, hsame⟩)
  · rintro h ⟨reg, req, hreg, hreq, hsame⟩
    exact (exact_iff_alike hreg hreq hsame).mpr (h reg req hreg hreq hsame)

def asciiChecks : UrlChecks := ⟨id, fun _ => false, lower⟩

theorem not_redirectMatches_exact :
    redirectMatches asciiChecks "https://app.example/cb".toList "https://evil@app.example/cb".toList =
        some true ∧
      ¬ Exact asciiChecks "https://app.example/cb".toList "https://evil@app.example/cb".toList := by
  refine ⟨by decide, ?_⟩
  rintro (h | ⟨⟨reg, hreg⟩, -, -⟩)
  · exact absurd h (by decide)
  · have hparts := hreg.isLoopback
    obtain rfl := Option.some.inj ((show urlsplit asciiChecks "https://app.example/cb".toList = some
      ⟨"https".toList, "app.example".toList, "/cb".toList, [], []⟩ by decide).symm.trans hreg.splits)
    exact absurd hparts (by decide)

end TranscodeForge.Redirects
