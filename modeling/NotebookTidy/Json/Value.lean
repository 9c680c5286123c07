import NotebookTidy.Json.Number

/-!
# Document values

The value of a document: null, a truth value, a number as it is written, a text, a list, or an
object, whose members keep the order in which they were read.  Objects are lists of pairs, so
order is data; that no key comes twice and that no object reads as a number is the predicate
`Json.WellFormed`, which holds of every value that is read.
-/

namespace NotebookTidy

/-- A document value. -/
inductive Json where
  | null
  | boolean (value : Bool)
  | number (value : Number)
  | string (value : Text)
  | array (items : List Json)
  | object (members : List (Text × Json))
deriving Repr

/-- The members of an object, in order. -/
abbrev Members := List (Text × Json)

namespace Json

mutual

/-- Values can be told apart. -/
def decEq : (a b : Json) → Decidable (a = b)
  | .null, .null => isTrue rfl
  | .boolean a, .boolean b =>
    if h : a = b then isTrue (h ▸ rfl) else isFalse (fun e => h (Json.boolean.inj e))
  | .number a, .number b =>
    if h : a = b then isTrue (h ▸ rfl) else isFalse (fun e => h (Json.number.inj e))
  | .string a, .string b =>
    if h : a = b then isTrue (h ▸ rfl) else isFalse (fun e => h (Json.string.inj e))
  | .array a, .array b =>
    match decEqItems a b with
    | isTrue h => isTrue (h ▸ rfl)
    | isFalse h => isFalse (fun e => h (Json.array.inj e))
  | .object a, .object b =>
    match decEqMembers a b with
    | isTrue h => isTrue (h ▸ rfl)
    | isFalse h => isFalse (fun e => h (Json.object.inj e))
  | .null, .boolean _ | .null, .number _ | .null, .string _ | .null, .array _
  | .null, .object _ | .boolean _, .null | .boolean _, .number _ | .boolean _, .string _
  | .boolean _, .array _ | .boolean _, .object _ | .number _, .null | .number _, .boolean _
  | .number _, .string _ | .number _, .array _ | .number _, .object _ | .string _, .null
  | .string _, .boolean _ | .string _, .number _ | .string _, .array _ | .string _, .object _
  | .array _, .null | .array _, .boolean _ | .array _, .number _ | .array _, .string _
  | .array _, .object _ | .object _, .null | .object _, .boolean _ | .object _, .number _
  | .object _, .string _ | .object _, .array _ => isFalse (by intro e; cases e)

/-- Lists of values can be told apart. -/
def decEqItems : (a b : List Json) → Decidable (a = b)
  | [], [] => isTrue rfl
  | [], _ :: _ => isFalse (by intro e; cases e)
  | _ :: _, [] => isFalse (by intro e; cases e)
  | v :: vs, w :: ws =>
    match decEq v w, decEqItems vs ws with
    | isTrue h, isTrue hs => isTrue (h ▸ hs ▸ rfl)
    | isFalse h, _ => isFalse (fun e => h (List.cons.inj e).1)
    | _, isFalse hs => isFalse (fun e => hs (List.cons.inj e).2)

/-- Lists of members can be told apart. -/
def decEqMembers : (a b : List (Text × Json)) → Decidable (a = b)
  | [], [] => isTrue rfl
  | [], _ :: _ => isFalse (by intro e; cases e)
  | _ :: _, [] => isFalse (by intro e; cases e)
  | (k, v) :: ms, (l, w) :: ns =>
    match decEq v w, decEqMembers ms ns with
    | isTrue h, isTrue hs =>
      if hk : k = l then isTrue (hk ▸ h ▸ hs ▸ rfl)
      else isFalse (fun e => hk (congrArg Prod.fst (List.cons.inj e).1))
    | isFalse h, _ => isFalse (fun e => h (congrArg Prod.snd (List.cons.inj e).1))
    | _, isFalse hs => isFalse (fun e => hs (List.cons.inj e).2)

end

instance : DecidableEq Json := decEq

instance : Inhabited Json := ⟨.null⟩

mutual

/-- **The values of documents**: every number is a numeral, no object has a key twice, and none
starts with the key of a number's long form. -/
def WellFormed : Json → Prop
  | .number n => n.WellFormed
  | .array items => WellFormedItems items
  | .object members =>
    (members.map Prod.fst).Nodup ∧ (members.map Prod.fst).head? ≠ some Number.longFormKey ∧
      WellFormedMembers members
  | .null => True
  | .boolean _ => True
  | .string _ => True

/-- Every item is the value of a document. -/
def WellFormedItems : List Json → Prop
  | [] => True
  | v :: rest => v.WellFormed ∧ WellFormedItems rest

/-- Every member's value is the value of a document. -/
def WellFormedMembers : List (Text × Json) → Prop
  | [] => True
  | (_, v) :: rest => v.WellFormed ∧ WellFormedMembers rest

end

mutual

/-- How many arrays and objects are nested at the deepest place. -/
def depth : Json → Nat
  | .array items => depthItems items + 1
  | .object members => depthMembers members + 1
  | .null => 0
  | .boolean _ => 0
  | .number _ => 0
  | .string _ => 0

/-- The depth of the deepest item. -/
def depthItems : List Json → Nat
  | [] => 0
  | v :: rest => max v.depth (depthItems rest)

/-- The depth of the deepest member. -/
def depthMembers : List (Text × Json) → Nat
  | [] => 0
  | (_, v) :: rest => max v.depth (depthMembers rest)

end

end Json

namespace Members

/-- The value of a key. -/
def get? (key : Text) : Members → Option Json
  | [] => none
  | (k, v) :: rest => if k = key then some v else get? key rest

/-- The members with a key set to a value: in its place if the key is there, else at the end. -/
def set (key : Text) (value : Json) : Members → Members
  | [] => [(key, value)]
  | (k, v) :: rest => if k = key then (k, value) :: rest else (k, v) :: set key value rest

/-- The members before a key, its value, and the members after it. -/
def split? (key : Text) : Members → Option (Members × Json × Members)
  | [] => none
  | (k, v) :: rest =>
    if k = key then some ([], v, rest)
    else (split? key rest).map fun (before, value, after) => ((k, v) :: before, value, after)

/-- **Splitting at a key only takes the members apart.** -/
theorem eq_of_split? {key : Text} {members before after : Members} {value : Json}
    (h : split? key members = some (before, value, after)) :
    members = before ++ (key, value) :: after := by
  induction members generalizing before with
  | nil => simp [split?] at h
  | cons m rest ih =>
    obtain ⟨k, v⟩ := m
    rw [split?] at h
    split at h
    · next hk =>
      simp only [Option.some.injEq, Prod.mk.injEq] at h
      obtain ⟨rfl, rfl, rfl⟩ := h
      simp [hk]
    · obtain ⟨⟨b, w, a⟩, hs, he⟩ := Option.map_eq_some_iff.mp h
      simp only [Prod.mk.injEq] at he
      obtain ⟨rfl, rfl, rfl⟩ := he
      simp [ih hs]

end Members
end NotebookTidy
