import ScrabbleMagyar.Accounts.SocketAuth

/-!
# Passwords

How passwords are kept (`accounts/password.rs`): the name of the method, the salt and a key derived
from the password, with dollars between them. The two hash functions are a parameter.

* `checkPasswordHash_generate`: what is kept of a password is met by those passwords from which the
  same key is derived, and by no others.
-/

namespace ScrabbleMagyar.Password

open SocketAuth (decimal parseU64)

/-- The rounds of a new hash (`DEFAULT_ITERATIONS`). -/
def defaultIterations : ℕ := 260000

/-- The characters of a salt (`SALT_CHARS`). -/
def saltChars : Word := "abcdefghijklmnopqrstuvwxyzABCDEFGHIJKLMNOPQRSTUVWXYZ0123456789".toList

/-- The keys in hexadecimal, by password, salt and number of rounds. -/
structure Pbkdf2 where
  sha256 : List UInt8 → List UInt8 → ℕ → Word
  sha512 : List UInt8 → List UInt8 → ℕ → Word

/-- A salt of characters drawn by their places. -/
def genSalt (draws : List (Fin 62)) : Word := draws.map fun i : Fin 62 => saltChars.getD i.val 'a'

variable (kdf : Pbkdf2)

/-- The key of a password by the function of a name; there are two of them. -/
def derive (hashName : Word) (password salt : Word) (iterations : ℕ) : Option Word :=
  if hashName = "sha256".toList then
    some (kdf.sha256 (Utf8.encode password) (Utf8.encode salt) iterations)
  else if hashName = "sha512".toList then
    some (kdf.sha512 (Utf8.encode password) (Utf8.encode salt) iterations)
  else none

/-- What is kept of a password. -/
def generatePasswordHash (draws : List (Fin 62)) (password : Word) : Word :=
  let salt := genSalt draws
  let hash := kdf.sha256 (Utf8.encode password) (Utf8.encode salt) defaultIterations
  "pbkdf2:sha256:".toList ++ decimal defaultIterations ++ '$' :: salt ++ '$' :: hash

/-- What comes before the first dollar of a text, and what comes after it. -/
def splitDollar (text : Word) : Option (Word × Word) :=
  match text.dropWhile fun c => c ≠ '$' with
  | [] => none
  | _ :: rest => some (text.takeWhile fun c => c ≠ '$', rest)

/-- `parse::<u32>`, of a number that is not zero. -/
def parseIterations (text : Word) : Option ℕ :=
  (parseU64 text).filter fun n => 0 < n ∧ n < 2 ^ 32

/-- Whether a password meets what is kept of one; a text in no known form is met by none. -/
def checkPasswordHash (stored password : Word) : Bool :=
  (do
    let (method, rest) ← splitDollar stored
    let (salt, expected) ← splitDollar rest
    let (name, hashName, iterations) ← match method.splitOn ':' with
      | [] => none
      | [name] => some (name, "sha256".toList, 600000)
      | [name, hashName] => some (name, hashName, 600000)
      | name :: hashName :: text :: _ => (parseIterations text).map fun n => (name, hashName, n)
    if name ≠ "pbkdf2".toList then none
    else
      let actual ← derive kdf hashName password salt iterations
      some (decide (actual = expected))).getD false

variable {kdf}

theorem splitDollar_append {first : Word} (h : '$' ∉ first) (rest : Word) :
    splitDollar (first ++ '$' :: rest) = some (first, rest) := by
  have hall : ∀ c ∈ first, decide (c ≠ '$') = true := fun c hc => by
    simpa using ne_of_mem_of_not_mem hc h
  rw [splitDollar, List.dropWhile_append_of_pos hall, List.takeWhile_append_of_pos hall]
  simp

theorem dollar_notMem_genSalt (draws : List (Fin 62)) : '$' ∉ genSalt draws := by
  have hchars : ∀ i : Fin 62, saltChars.getD i.val 'a' ≠ '$' := by decide +kernel
  intro h
  obtain ⟨i, -, hi⟩ := List.mem_map.mp h
  exact hchars i hi

/-- **A password is told by its key**: what is kept of one is met by the passwords from which the
same key is derived, and by no others. -/
theorem checkPasswordHash_generate (kdf : Pbkdf2) (draws : List (Fin 62)) (password given : Word) :
    checkPasswordHash kdf (generatePasswordHash kdf draws password) given = true ↔
      kdf.sha256 (Utf8.encode given) (Utf8.encode (genSalt draws)) defaultIterations =
        kdf.sha256 (Utf8.encode password) (Utf8.encode (genSalt draws)) defaultIterations := by
  have hmethod : '$' ∉ "pbkdf2:sha256:".toList ++ decimal defaultIterations := by decide
  have hparts : ("pbkdf2:sha256:".toList ++ decimal defaultIterations).splitOn ':' =
      ["pbkdf2".toList, "sha256".toList, "260000".toList] := by decide
  have hrounds : parseIterations "260000".toList = some defaultIterations := by decide
  have hderive : derive kdf "sha256".toList given (genSalt draws) defaultIterations =
      some (kdf.sha256 (Utf8.encode given) (Utf8.encode (genSalt draws)) defaultIterations) :=
    if_pos rfl
  unfold checkPasswordHash generatePasswordHash
  dsimp only
  generalize "260000".toList = rounds at hparts hrounds
  generalize "sha256".toList = hashName at hparts hderive ⊢
  generalize "pbkdf2:sha256:".toList ++ decimal defaultIterations = method at hmethod hparts ⊢
  generalize "pbkdf2".toList = name at hparts ⊢
  rw [List.append_assoc, List.cons_append, splitDollar_append hmethod]
  simp only [Option.bind_eq_bind, Option.bind_some,
    splitDollar_append (dollar_notMem_genSalt draws), hparts, hrounds, Option.map_some, ne_eq,
    not_true_eq_false, if_false, hderive, Option.getD_some, decide_eq_true_eq]

end ScrabbleMagyar.Password
