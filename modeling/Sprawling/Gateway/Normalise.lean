import Sprawling.Base.Outcome
import Sprawling.Base.Runs
import Sprawling.Gateway.Reach
import Sprawling.Kernel.Secret.Scan

/-! What a person pasted, turned into the base URL the city calls and the request shape that URL answers
in. The chat URL, the base URL and the host alone all arrive at one registration. -/

namespace Sprawling

open Text

/-- The shapes a registration is stored under. -/
inductive DialectKind where
  | anthropic
  | openAi
  | openAiResponses
deriving DecidableEq

/-- Which request shape an endpoint answers in. -/
inductive DialectHint where
  | unset
  | chat
  | responses
  | messages
deriving DecidableEq

namespace DialectHint

def ofKind : DialectKind → DialectHint
  | .anthropic => messages
  | .openAi => chat
  | .openAiResponses => responses

/-- The stored shape this hint names. -/
def dialect : DialectHint → Option DialectKind
  | unset => none
  | chat => some .openAi
  | responses => some .openAiResponses
  | messages => some .anthropic

end DialectHint

/-- One entered URL, resolved. -/
structure Normalised where
  baseUrl : List Char
  dialect : DialectHint
deriving DecidableEq

/-- What the provider preset table says about a host. -/
structure HostDefaults where
  defaultPath : List Char → DialectHint → Option (List Char)
  defaultDialect : List Char → Option DialectHint

namespace Normalise

open Reach

def unlistedHostPath : List Char := ['/', 'v', '1']

/-- The query or fragment a person pasted, kept apart from the path. -/
def splitSuffix (locator : List Char) : List Char × List Char :=
  match splitOnce '?' locator with
  | some (address, query) => (address, '?' :: query)
  | none =>
    match splitOnce '#' locator with
    | some (address, fragment) => (address, '#' :: fragment)
    | none => (locator, [])

def opensSuffix (c : Char) : Bool := c = '?' || c = '#'

def dividesPairs (c : Char) : Bool := c = '&' || c = '#'

/-- Whether a parameter is named as a credential or holds a value the scanner recognises as one. -/
def carriesCredential (pair : List Char) : Bool :=
  let (name, value) := (splitOnce '=' pair).getD (pair, [])
  Secret.namesACredential (Utf8.encode name) || !(Secret.scan (Utf8.encode value)).isEmpty

def queryCarriesCredential (suffix : List Char) : Bool :=
  ((suffix.dropWhile opensSuffix).splitOnP dividesPairs).any carriesCredential

/-- The two sides of the first slash; all of it is the first side when there is none. -/
def splitPath (address : List Char) : List Char × List Char :=
  (splitOnce '/' address).getD (address, [])

/-- Refuses a URL that carries a credential. The refusal names neither the URL nor the value. -/
def refuseCredentials (locator : List Char) : Except AxError Unit :=
  let (address, suffix) := splitSuffix locator
  let refused (found : String) : Except AxError Unit :=
    .error (.failure .configInvalid "read the endpoint URL" ("the URL carries " ++ found)
      ("remove the key from the URL and enter it as the endpoint's key, "
        ++ "which the city keeps in the vault"))
  if '@' ∈ (splitPath address).1 then refused "a user name or password written before the host"
  else if queryCarriesCredential suffix then refused "a credential written into the query"
  else .ok ()

/-- The refusal for every URL rejected on its shape. -/
def refusal (entered : List Char) (subject recovery : String) : AxError :=
  .failure .configInvalid ("read the endpoint URL " ++ String.ofList entered) subject recovery

def completions : List Char := ['c', 'o', 'm', 'p', 'l', 'e', 't', 'i', 'o', 'n', 's']

def chat : List Char := ['c', 'h', 'a', 't']

def responses : List Char := ['r', 'e', 's', 'p', 'o', 'n', 's', 'e', 's']

def messages : List Char := ['m', 'e', 's', 's', 'a', 'g', 'e', 's']

/-- One face removed from the end of the path, or the path unchanged. -/
def stripOneFace (segments : List (List Char)) : List (List Char) × DialectHint :=
  if segments.getLast? = some completions then
    if segments.dropLast.getLast? = some chat then (segments.dropLast.dropLast, .chat)
    else (segments, .unset)
  else if segments.getLast? = some responses then (segments.dropLast, .responses)
  else if segments.getLast? = some messages then (segments.dropLast, .messages)
  else (segments, .unset)

/-- At most so many faces removed, the last one of the path deciding. -/
def stripFaces : Nat → List (List Char) → DialectHint → List (List Char) × DialectHint
  | 0, kept, face => (kept, face)
  | turns + 1, kept, face =>
    match stripOneFace kept with
    | (_, .unset) => (kept, face)
    | (rest, found) => stripFaces turns rest (if face = .unset then found else face)

/-- Every face at the end of the path removed, and the one the URL ended in. Each takes a segment, so
there are no more turns than segments. -/
def stripFace (segments : List (List Char)) : List (List Char) × DialectHint :=
  stripFaces segments.length segments .unset

def trimSlashes (path : List Char) : List Char := (path.dropWhile (· = '/')).rdropWhile (· = '/')

/-- The path of the stored base URL, with no trailing slash. -/
def resolvePath (kept : List (List Char)) (suffix : List Char) (preset : Option (List Char)) :
    List Char :=
  let entered := ['/'].intercalate kept
  if entered ≠ [] then '/' :: entered
  else if suffix ≠ [] then []
  else
    match preset.map trimSlashes with
    | some [] => []
    | some preset => '/' :: preset
    | none => unlistedHostPath

/-- Which shape wins: the pasted URL, then the person's choice, then the preset table. -/
def resolveDialect (fromUrl hint : DialectHint) (host : List Char) (presets : HostDefaults) :
    DialectHint :=
  match fromUrl, hint with
  | .unset, .unset => (presets.defaultDialect host).getD .unset
  | .unset, chosen => chosen
  | fromUrl, _ => fromUrl

/-- The scheme a text gives, in lower case, and what follows it. -/
def readScheme (entered : List Char) : Option (List Char) × List Char :=
  let trimmed := trim entered
  match splitScheme trimmed with
  | some (scheme, rest) => (some (scheme.map Char.toLower), rest)
  | none => (none, trimmed)

def refuseScheme (entered : List Char) : Option (List Char) → Except AxError Unit
  | none => .ok ()
  | some scheme =>
    if scheme ≠ http ∧ scheme ≠ https then
      .error (refusal entered (String.ofList scheme ++ " is not a scheme the city can call")
        "enter an http:// or https:// URL, the one the provider's documentation prints")
    else .ok ()

/-- What is settled once the host is known. -/
def settle (given : Option (List Char)) (locator host : List Char) (machine : Bool)
    (hint : DialectHint) (presets : HostDefaults) : Normalised :=
  let scheme := given.getD (if machine then http else https)
  let (address, suffix) := splitSuffix locator
  let (authority, enteredPath) := splitPath address
  let segments := (enteredPath.splitOn '/').filter (· ≠ [])
  let (kept, fromUrl) := stripFace segments
  let dialect :=
    match resolveDialect fromUrl hint host presets with
    | .unset => if machine then .chat else .unset
    | settled => settled
  let path := resolvePath kept suffix (presets.defaultPath host dialect)
  ⟨scheme ++ colonSlashes ++ authority.map Char.toLower ++ path ++ suffix, dialect⟩

end Normalise

open Normalise Reach in
/-- What a person entered, as the base URL the city stores and the shape it answers in. -/
def normalise (entered : List Char) (hint : DialectHint) (presets : HostDefaults) :
    Except AxError Normalised := do
  let (given, locator) := readScheme entered
  refuseCredentials locator
  refuseScheme entered given
  -- The locality test needs a scheme, so the probe carries the plain one and is never stored.
  let probe := given.getD http ++ colonSlashes ++ locator
  match split probe with
  | none =>
    .error (refusal entered "no host to call"
      "enter the base URL of the provider, for example https://api.openai.com/v1")
  | some (host, _, _) =>
    return settle given locator (host.map Char.toLower) (isLocal probe) hint presets

namespace Normalise

open Reach

variable {entered locator : List Char} {hint : DialectHint} {presets : HostDefaults}
  {normalised : Normalised}

/-- What a text that is accepted has passed, and what is made of it. -/
theorem normalise_eq_ok :
    normalise entered hint presets = .ok normalised ↔
      refuseCredentials (readScheme entered).2 = .ok () ∧
      refuseScheme entered (readScheme entered).1 = .ok () ∧
      ∃ host port tls, split ((readScheme entered).1.getD http ++ colonSlashes ++
          (readScheme entered).2) = some (host, port, tls) ∧
        settle (readScheme entered).1 (readScheme entered).2 (host.map Char.toLower)
          (isLocal ((readScheme entered).1.getD http ++ colonSlashes ++ (readScheme entered).2))
          hint presets = normalised := by
  unfold normalise
  simp only [Outcome.bind_eq_ok]
  constructor
  · rintro ⟨_, clean, _, known, done⟩
    refine ⟨clean, known, ?_⟩
    split at done
    · cases done
    · next host port tls found => exact ⟨host, port, tls, found, Except.ok.inj done⟩
  · rintro ⟨clean, known, host, port, tls, found, made⟩
    refine ⟨(), clean, (), known, ?_⟩
    rw [found]
    exact congrArg Except.ok made

theorem refuseCredentials_eq_ok :
    refuseCredentials locator = .ok () ↔
      '@' ∉ (splitPath (splitSuffix locator).1).1 ∧
        queryCarriesCredential (splitSuffix locator).2 = false := by
  unfold refuseCredentials
  simp only
  split_ifs with user query
  · simp [user]
  · simp [query]
  · simp [user, query]

/-- How an address and what was split off it make up the whole. -/
inductive Cut (address : List Char) : List Char → Prop
  | whole (unasked : '?' ∉ address) (plain : '#' ∉ address) : Cut address []
  | query (unasked : '?' ∉ address) (query : List Char) : Cut address ('?' :: query)
  | fragment (unasked : '?' ∉ address) (plain : '#' ∉ address) {fragment : List Char}
      (unasked_later : '?' ∉ fragment) : Cut address ('#' :: fragment)

theorem splitSuffix_cut (locator : List Char) :
    Cut (splitSuffix locator).1 (splitSuffix locator).2 ∧
      locator = (splitSuffix locator).1 ++ (splitSuffix locator).2 := by
  unfold splitSuffix
  split
  · next address query found =>
      obtain ⟨whole, unasked⟩ := splitOnce_eq_some.mp found
      exact ⟨.query unasked query, whole⟩
  · next none_asked =>
      have unasked := splitOnce_eq_none.mp none_asked
      split
      · next address fragment found =>
          obtain ⟨rfl, plain⟩ := splitOnce_eq_some.mp found
          simp only [List.mem_append, List.mem_cons, not_or] at unasked
          exact ⟨.fragment unasked.1 plain unasked.2.2, rfl⟩
      · next none_marked =>
          exact ⟨.whole unasked (splitOnce_eq_none.mp none_marked), (List.append_nil _).symm⟩

variable {address suffix : List Char}

theorem Cut.splitSuffix_append (cut : Cut address suffix) :
    splitSuffix (address ++ suffix) = (address, suffix) := by
  unfold splitSuffix
  cases cut with
  | whole unasked plain =>
    rw [List.append_nil, splitOnce_eq_none.mpr unasked]
    simp only
    rw [splitOnce_eq_none.mpr plain]
  | query unasked query => rw [splitOnce_eq_some.mpr ⟨rfl, unasked⟩]
  | @fragment unasked plain fragment later =>
    have none_asked : '?' ∉ address ++ '#' :: fragment := by
      simp only [List.mem_append, List.mem_cons, not_or]
      exact ⟨unasked, by decide, later⟩
    rw [splitOnce_eq_none.mpr none_asked]
    simp only
    rw [splitOnce_eq_some.mpr ⟨rfl, plain⟩]

/-- An authority ends where the splitter says, whatever was split off behind it. -/
theorem takeWhile_authority (cut : Cut address suffix) :
    (address ++ suffix).takeWhile (fun c => !endsAuthority c) =
      (splitPath address).1.takeWhile fun c => !endsAuthority c := by
  have address_only : (address ++ suffix).takeWhile (fun c => !endsAuthority c) =
      address.takeWhile fun c => !endsAuthority c := by
    cases cut with
    | whole unasked plain => rw [List.append_nil]
    | query unasked query => exact Runs.takeWhile_before (by decide) _ _
    | fragment unasked plain later => exact Runs.takeWhile_before (by decide) _ _
  rw [address_only, splitPath]
  cases found : splitOnce '/' address with
  | none => rfl
  | some sides =>
    obtain ⟨whole, -⟩ := splitOnce_eq_some.mp found
    rw [Option.getD_some, whole]
    exact Runs.takeWhile_before (by decide) _ _

end Normalise

end Sprawling
