import Mathlib.Data.List.TakeWhile

-- `urllib.parse`: a URL in its five components.
namespace Text

abbrev Chars := List Char

instance : LawfulBEq Chars := inferInstance

-- `str.partition` without the separator.
def before (c : Char) (text : Chars) : Chars := text.takeWhile (· != c)

def after (c : Char) (text : Chars) : Chars := (text.dropWhile (· != c)).drop 1

-- `str.rpartition(c)[2]` and what stands before it, if the separator occurs.
def afterLast (c : Char) (text : Chars) : Chars := (text.reverse.takeWhile (· != c)).reverse

def beforeLast (c : Char) (text : Chars) : Option Chars :=
  if c ∈ text then some ((text.reverse.dropWhile (· != c)).drop 1).reverse else none

def lower (text : Chars) : Chars := text.map Char.toLower

structure SplitResult where
  scheme : Chars
  netloc : Chars
  path : Chars
  query : Chars
  fragment : Chars
deriving DecidableEq, Repr

-- What `urlsplit` asks of other modules of the standard library.
structure UrlChecks where
  nfkc : Chars → Chars
  isIpv6Address : Chars → Bool
  lower : Chars → Chars

variable (checks : UrlChecks)

def c0ControlOrSpace (ch : Char) : Bool := ch.toNat ≤ 32

def tabOrNewline (ch : Char) : Bool := ch == '\t' || ch == '\r' || ch == '\n'

def schemeChar (ch : Char) : Bool :=
  ch.isAlphanum || ch == '+' || ch == '-' || ch == '.'

def splitScheme (url : Chars) : Chars × Chars :=
  match url with
  | c :: _ =>
    if c.isAlpha && ':' ∈ url && (before ':' url).all schemeChar then
      (lower (before ':' url), after ':' url)
    else ([], url)
  | [] => ([], [])

def delimits (ch : Char) : Bool := ch == '/' || ch == '?' || ch == '#'

def splitNetloc (url : Chars) : Chars × Chars :=
  (url.takeWhile (!delimits ·), url.dropWhile (!delimits ·))

-- IPvFuture, or an IPv6 address.
def bracketedHost (host : Chars) : Bool :=
  match host with
  | 'v' :: version =>
    let hex := version.takeWhile fun ch => ch.isDigit || ('a' ≤ ch.toLower && ch.toLower ≤ 'f')
    match version.drop hex.length with
    | '.' :: rest => hex ≠ [] && rest ≠ [] && '\n' ∉ rest
    | _ => false
  | _ => checks.isIpv6Address host

def bracketedNetloc (netloc : Chars) : Bool :=
  let hostinfo := afterLast '@' netloc
  if '[' ∈ hostinfo then
    let bracketed := after '[' hostinfo
    before '[' hostinfo = [] &&
      (after ']' bracketed = [] || (after ']' bracketed).head? == some ':') &&
      bracketedHost checks (before ']' bracketed)
  else bracketedHost checks (before ':' hostinfo)

def isAscii (text : Chars) : Bool := text.all fun ch => ch.toNat < 128

def normalizes (netloc : Chars) : Bool :=
  let n := netloc.filter fun ch => ch ∉ ['@', ':', '#', '?']
  isAscii netloc || checks.nfkc n = n || (checks.nfkc n).all fun ch => ch ∉ ['/', '?', '#', '@', ':']

def checkNetloc (netloc : Chars) : Bool :=
  decide ('[' ∈ netloc ↔ ']' ∈ netloc) && ('[' ∉ netloc || bracketedNetloc checks netloc) &&
    normalizes checks netloc

def splitRest (scheme netloc url : Chars) : SplitResult where
  scheme := scheme
  netloc := netloc
  path := before '?' (before '#' url)
  query := after '?' (before '#' url)
  fragment := after '#' url

def cleaned (url : Chars) : Chars := (url.dropWhile c0ControlOrSpace).filter (!tabOrNewline ·)

-- `none` is a `ValueError`.
def urlsplit (url : Chars) : Option SplitResult :=
  match splitScheme (cleaned url) with
  | (scheme, '/' :: '/' :: rest) =>
    let (netloc, url) := splitNetloc rest
    if checkNetloc checks netloc then some (splitRest scheme netloc url) else none
  | (scheme, url) => some (splitRest scheme [] url)

-- Of a URL with a scheme and an authority, or with neither. Newer releases write an empty
-- authority before a path that starts with two slashes.
def urlunsplit (padded : Bool) (scheme netloc path query : Chars) : Chars :=
  let rooted := if path ≠ [] ∧ path.head? ≠ some '/' then '/' :: path else path
  let url :=
    if netloc ≠ [] then '/' :: '/' :: netloc ++ rooted
    else if padded && ['/', '/'] <+: path then '/' :: '/' :: path
    else path
  let url := if scheme = [] then url else scheme ++ ':' :: url
  if query = [] then url else url ++ '?' :: query

namespace SplitResult

variable (parts : SplitResult)

def userinfo : Option Chars := beforeLast '@' parts.netloc

def username : Option Chars := parts.userinfo.map (before ':')

def password : Option Chars :=
  parts.userinfo.bind fun userinfo => if ':' ∈ userinfo then some (after ':' userinfo) else none

def hostinfo : Chars × Chars :=
  let info := afterLast '@' parts.netloc
  if '[' ∈ info then (before ']' (after '[' info), after ':' (after ']' (after '[' info)))
  else (before ':' info, after ':' info)

def hostname : Option Chars :=
  let host := parts.hostinfo.1
  if host = [] then none
  else some (checks.lower (before '%' host) ++ host.dropWhile (· != '%'))

-- `int` refuses more than 4300 digits; `none` is a `ValueError`.
def port : Option (Option Nat) :=
  let digits := parts.hostinfo.2
  let value := Nat.ofDigitChars 10 digits 0
  if digits = [] then some none
  else if digits.all Char.isDigit && digits.length ≤ 4300 && value ≤ 65535 then some (some value)
  else none

end SplitResult

end Text
