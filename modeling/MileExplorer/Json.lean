import Mathlib.Data.List.Sort
import Mathlib.Data.Prod.Lex
import Mathlib.Data.Rat.Floor
import Mathlib.Data.String.Basic

/-!
# JSON documents

The values of `nlohmann::json` as the program uses them: the accessors that
throw, the ones that do not, and the assignments.  Object members are kept as
an association list in key order, as the `std::map` behind an object does.
-/

namespace MileExplorer

/-- Exceptions a JSON accessor or a library conversion can raise, each with
its `what()` text.  The first five are the exception classes of the JSON
library; `standard` is any other `std::exception`. -/
inductive Exn where
  | parseError (what : String)
  | invalidIterator (what : String)
  | typeError (what : String)
  | outOfRange (what : String)
  | otherError (what : String)
  | standard (what : String)
  deriving DecidableEq, Repr

theorem bind_eq_ok {Error Value Other : Type} {value : Except Error Value}
    {next : Value → Except Error Other} {result : Other} :
    (value >>= next) = .ok result ↔ ∃ middle, value = .ok middle ∧ next middle = .ok result := by
  cases value <;> simp [bind, Except.bind]

/-- A JSON value.  `num` covers the signed and unsigned integers, `real` the
floating-point numbers by their exact value. -/
inductive Json where
  | null
  | bool (value : Bool)
  | num (value : Int)
  | real (value : Rat)
  | str (value : String)
  | arr (elements : List Json)
  | obj (members : List (String × Json))
  deriving Inhabited

namespace Json

mutual

def decEq : (first second : Json) → Decidable (first = second)
  | .null, .null => isTrue rfl
  | .bool a, .bool b => decidable_of_iff (a = b) (by simp)
  | .num a, .num b => decidable_of_iff (a = b) (by simp)
  | .real a, .real b => decidable_of_iff (a = b) (by simp)
  | .str a, .str b => decidable_of_iff (a = b) (by simp)
  | .arr a, .arr b =>
      match decEqList a b with
      | isTrue same => isTrue (congrArg Json.arr same)
      | isFalse differ => isFalse fun equal => differ (Json.arr.inj equal)
  | .obj a, .obj b =>
      match decEqMembers a b with
      | isTrue same => isTrue (congrArg Json.obj same)
      | isFalse differ => isFalse fun equal => differ (Json.obj.inj equal)
  | .null, .bool _ | .null, .num _ | .null, .real _ | .null, .str _ | .null, .arr _
  | .null, .obj _ | .bool _, .null | .bool _, .num _ | .bool _, .real _ | .bool _, .str _
  | .bool _, .arr _ | .bool _, .obj _ | .num _, .null | .num _, .bool _ | .num _, .real _
  | .num _, .str _ | .num _, .arr _ | .num _, .obj _ | .real _, .null | .real _, .bool _
  | .real _, .num _ | .real _, .str _ | .real _, .arr _ | .real _, .obj _ | .str _, .null
  | .str _, .bool _ | .str _, .num _ | .str _, .real _ | .str _, .arr _ | .str _, .obj _
  | .arr _, .null | .arr _, .bool _ | .arr _, .num _ | .arr _, .real _ | .arr _, .str _
  | .arr _, .obj _ | .obj _, .null | .obj _, .bool _ | .obj _, .num _ | .obj _, .real _
  | .obj _, .str _ | .obj _, .arr _ => isFalse (by simp)

def decEqList : (first second : List Json) → Decidable (first = second)
  | [], [] => isTrue rfl
  | [], _ :: _ => isFalse (by simp)
  | _ :: _, [] => isFalse (by simp)
  | a :: as, b :: bs =>
      match decEq a b, decEqList as bs with
      | isTrue head, isTrue tail => isTrue (by rw [head, tail])
      | isFalse head, _ => isFalse fun equal => head (List.cons.inj equal).1
      | _, isFalse tail => isFalse fun equal => tail (List.cons.inj equal).2

def decEqMembers : (first second : List (String × Json)) → Decidable (first = second)
  | [], [] => isTrue rfl
  | [], _ :: _ => isFalse (by simp)
  | _ :: _, [] => isFalse (by simp)
  | (k, a) :: as, (l, b) :: bs =>
      match decEq a b, decEqMembers as bs with
      | isTrue head, isTrue tail => decidable_of_iff (k = l) (by simp [head, tail])
      | isFalse head, _ =>
          isFalse fun equal => head (Prod.mk.inj (List.cons.inj equal).1).2
      | _, isFalse tail => isFalse fun equal => tail (List.cons.inj equal).2

end

instance : DecidableEq Json := decEq

/-! ## Members of an object -/

def member? (key : String) : List (String × Json) → Option Json
  | [] => none
  | (name, value) :: rest => if name = key then some value else member? key rest

def setMember {Value : Type} (key : String) (value : Value) :
    List (String × Value) → List (String × Value)
  | [] => [(key, value)]
  | (name, old) :: rest =>
      if name = key then (key, value) :: rest
      else if key < name then (key, value) :: (name, old) :: rest
      else (name, old) :: setMember key value rest

theorem member?_setMember (key other : String) (value : Json)
    (members : List (String × Json)) :
    member? other (setMember key value members) =
      if key = other then some value else member? other members := by
  induction members with
  | nil => rfl
  | cons head rest ih =>
      obtain ⟨name, old⟩ := head
      by_cases found : key = other
      · subst other
        simp only [setMember, if_true] at ih ⊢
        split_ifs with same before
        · simp [member?]
        · simp [member?]
        · simp [member?, same, ih]
      · simp only [setMember, if_neg found] at ih ⊢
        split_ifs with same before
        · simp [member?, same, found]
        · simp [member?, found]
        · simp [member?, ih]

theorem member?_eq_none {key : String} {members : List (String × Json)} :
    member? key members = none ↔ key ∉ members.map Prod.fst := by
  induction members with
  | nil => simp [member?]
  | cons head rest ih =>
      obtain ⟨name, old⟩ := head
      by_cases same : name = key
      · simp [member?, same]
      · simp only [member?, same, if_false, ih, List.map_cons, List.mem_cons, not_or]
        exact ⟨fun absent => ⟨fun equal => same equal.symm, absent⟩, And.right⟩

def Ordered (members : List (String × Json)) : Prop :=
  (members.map Prod.fst).Pairwise (· < ·)

theorem Ordered.nodup {members : List (String × Json)} (ordered : Ordered members) :
    (members.map Prod.fst).Nodup :=
  ordered.imp fun before => ne_of_lt before

theorem mem_of_mem_setMember {Value : Type} {key : String} {value : Value}
    {members : List (String × Value)} {entry : String × Value}
    (member : entry ∈ setMember key value members) :
    entry = (key, value) ∨ entry ∈ members := by
  induction members with
  | nil => simpa [setMember] using member
  | cons head rest ih =>
      obtain ⟨first, old⟩ := head
      simp only [setMember] at member
      split_ifs at member with same before
      · rcases List.mem_cons.mp member with equal | later
        · exact .inl equal
        · exact .inr (by simp [later])
      · rcases List.mem_cons.mp member with equal | later
        · exact .inl equal
        · exact .inr later
      · rcases List.mem_cons.mp member with rfl | later
        · exact .inr (by simp)
        · exact (ih later).imp_right fun old => by simp [old]

theorem Ordered.setMember {members : List (String × Json)} (ordered : Ordered members)
    (key : String) (value : Json) : Ordered (setMember key value members) := by
  induction members with
  | nil => simp [Ordered, Json.setMember]
  | cons head rest ih =>
      obtain ⟨first, old⟩ := head
      obtain ⟨firstLeast, restOrdered⟩ := List.pairwise_cons.mp ordered
      simp only [Json.setMember]
      split_ifs with same before
      · subst first
        exact List.pairwise_cons.mpr ⟨firstLeast, restOrdered⟩
      · refine List.pairwise_cons.mpr ⟨?_, ordered⟩
        intro name member
        rcases List.mem_cons.mp member with rfl | later
        · exact before
        · exact lt_trans before (firstLeast name later)
      · refine List.pairwise_cons.mpr ⟨?_, ih restOrdered⟩
        intro name member
        obtain ⟨entry, entryMem, rfl⟩ := List.mem_map.mp member
        rcases mem_of_mem_setMember entryMem with rfl | later
        · exact lt_of_le_of_ne (not_lt.mp before) same
        · exact firstLeast _ (List.mem_map_of_mem later)

/-- Assigning the value that is there. -/
theorem Ordered.setMember_of_member? {members : List (String × Json)} (ordered : Ordered members)
    {key : String} {value : Json} (found : member? key members = some value) :
    Json.setMember key value members = members := by
  induction members with
  | nil => simp [member?] at found
  | cons head rest ih =>
      obtain ⟨name, old⟩ := head
      obtain ⟨least, restOrdered⟩ := List.pairwise_cons.mp ordered
      simp only [member?] at found
      split_ifs at found with same
      · obtain rfl : old = value := Option.some.inj found
        simp [Json.setMember, same]
      · have listed : key ∈ rest.map Prod.fst := by
          by_contra absent
          simp [member?_eq_none.mpr absent] at found
        have before : ¬ key < name := not_lt.mpr (le_of_lt (least key listed))
        simp [Json.setMember, same, before, ih restOrdered found]

theorem member?_filter_ne (key other : String) (members : List (String × Json)) :
    member? other (members.filter fun entry => entry.1 ≠ key) =
      if key = other then none else member? other members := by
  induction members with
  | nil => simp [member?]
  | cons head rest ih =>
      obtain ⟨name, old⟩ := head
      by_cases same : name = key
      · rw [List.filter_cons_of_neg (by simpa using same), ih]
        by_cases found : key = other
        · simp [found]
        · simp [member?, found, same]
      · rw [List.filter_cons_of_pos (by simpa using same)]
        simp only [member?, ih]
        by_cases found : name = other
        · have : key ≠ other := fun equal => same (found.trans equal.symm)
          simp [found, this]
        · simp [found]

/-! ## Reading -/

/-- `find`, which yields the end iterator on anything but an object. -/
def find? : Json → String → Option Json
  | .obj members, key => member? key members
  | _, _ => none

/-- `count`: one when the value is an object with the member, else zero. -/
def count (value : Json) (key : String) : Nat :=
  if (value.find? key).isSome then 1 else 0

/-- The word `type_name()` gives for the value in exception texts. -/
def typeName : Json → String
  | .null => "null"
  | .bool _ => "boolean"
  | .num _ => "number"
  | .real _ => "number"
  | .str _ => "string"
  | .arr _ => "array"
  | .obj _ => "object"

def isObject : Json → Bool
  | .obj _ => true
  | _ => false

def isArray : Json → Bool
  | .arr _ => true
  | _ => false

def isString : Json → Bool
  | .str _ => true
  | _ => false

def isNumber : Json → Bool
  | .num _ => true
  | .real _ => true
  | _ => false

def isNull : Json → Bool
  | .null => true
  | _ => false

/-- `at`, which throws on a missing member and on a value without members. -/
def at? (value : Json) (key : String) : Except Exn Json :=
  match value with
  | .obj members =>
      match member? key members with
      | some found => .ok found
      | none => .error (.outOfRange ("key '" ++ key ++ "' not found"))
  | other => .error (.typeError ("cannot use at() with " ++ other.typeName))

/-- `operator[]` on a mutable value: a missing member is created as null. -/
def index (value : Json) (key : String) : Except Exn Json :=
  match value with
  | .obj members => .ok ((member? key members).getD .null)
  | .null => .ok .null
  | other => .error (.typeError ("cannot use operator[] with " ++ other.typeName))

/-- `operator[]` on a constant value.  A missing member fails the library's
assertion. -/
def indexConst (value : Json) (key : String) : Except Exn Json :=
  match value with
  | .obj members =>
      match member? key members with
      | some found => .ok found
      | none => .error (.otherError "assertion failed")
  | other => .error (.typeError ("cannot use operator[] with " ++ other.typeName))

/-- `get<std::string>()`. -/
def getString : Json → Except Exn String
  | .str value => .ok value
  | other => .error (.typeError ("type must be string, but is " ++ other.typeName))

/-- `value[key].get<std::string>()` on a constant value. -/
def constText (value : Json) (key : String) : Except Exn String :=
  value.indexConst key >>= getString

/-- The C++ conversion of a floating-point number to an integer. -/
def truncate (value : Rat) : Int := value.num.tdiv value.den

@[simp]
theorem truncate_intCast (value : Int) : truncate (value : Rat) = value := by
  simp [truncate]

@[simp]
theorem truncate_natCast (value : Nat) : truncate (value : Rat) = value := by
  simp [truncate]

/-- `get<uint64_t>()`.  The integers of a document fit 64 bits already, so
only a negative one is brought back into range. -/
def getUInt64 : Json → Except Exn Nat
  | .num value => .ok (if 0 ≤ value then value.toNat else (2 ^ 64 + value).toNat)
  | .real value => .ok ((truncate value).toNat % 2 ^ 64)
  | other => .error (.typeError ("type must be number, but is " ++ other.typeName))

/-- `get<time_t>()`, a signed conversion.  A number from 2^63 on, which no time
of a block reaches, stays as it is where the conversion would wrap, and a real
number outside of the range, whose conversion is undefined, is truncated. -/
def getTime : Json → Except Exn Int
  | .num value => .ok value
  | .real value => .ok (truncate value)
  | other => .error (.typeError ("type must be number, but is " ++ other.typeName))

/-- What a range-based `for` visits. -/
def elements : Json → List Json
  | .arr elements => elements
  | .obj members => members.map Prod.snd
  | .null => []
  | other => [other]

/-! ## Writing -/

/-- Assignment through `operator[]`.  The operator turns null into an object
and throws on the other types, which no caller here reaches. -/
def set (value : Json) (key : String) (new : Json) : Json :=
  match value with
  | .obj members => .obj (setMember key new members)
  | .null => .obj [(key, new)]
  | other => other

def erase (value : Json) (key : String) : Json :=
  match value with
  | .obj members => .obj (members.filter fun entry => entry.1 ≠ key)
  | other => other

/-- `push_back`, which turns null into an array. -/
def pushBack (value new : Json) : Json :=
  match value with
  | .arr elements => .arr (elements ++ [new])
  | .null => .arr [new]
  | other => other

/-- The object an initializer list builds. -/
def ofMembers (members : List (String × Json)) : Json :=
  .obj (members.foldl (fun built entry => setMember entry.1 entry.2 built) [])

theorem ofMembers_ordered (members : List (String × Json)) :
    ∃ built, ofMembers members = .obj built ∧ Ordered built := by
  refine ⟨_, rfl, ?_⟩
  suffices keeps : ∀ built, Ordered built →
      Ordered (members.foldl (fun built entry => setMember entry.1 entry.2 built) built) from
    keeps [] List.Pairwise.nil
  induction members with
  | nil => exact fun built ordered => ordered
  | cons entry rest ih => exact fun built ordered => ih _ (ordered.setMember _ _)

mutual

/-- What an update of the stored value `old` with `new` leaves: objects are
merged member by member, anything else is replaced. -/
def merge : (old new : Json) → Json
  | .obj old, .obj new => .obj (mergeMembers old new)
  | _, new => new

def mergeMembers (old : List (String × Json)) :
    List (String × Json) → List (String × Json)
  | [] => old
  | (key, value) :: rest =>
      mergeMembers
        (setMember key
          (match member? key old with
            | some stored => merge stored value
            | none => value) old) rest

end

/-- Merging objects: a member of the new object is merged into the stored one
of that name, every other stored member stays. -/
theorem member?_mergeMembers {new : List (String × Json)} (nodup : (new.map Prod.fst).Nodup)
    (old : List (String × Json)) (key : String) :
    member? key (mergeMembers old new) =
      match member? key new with
      | none => member? key old
      | some value =>
          some (match member? key old with
            | some stored => merge stored value
            | none => value) := by
  induction new generalizing old with
  | nil => simp [mergeMembers, member?]
  | cons head rest ih =>
      obtain ⟨name, value⟩ := head
      obtain ⟨fresh, restNodup⟩ := List.nodup_cons.mp nodup
      rw [mergeMembers, ih restNodup, member?_setMember]
      by_cases same : name = key
      · subst name
        simp [member?, member?_eq_none.mpr fresh]
      · simp [member?, same]

@[simp]
theorem merge_num (old : Json) (value : Int) : old.merge (.num value) = .num value := by
  cases old <;> rfl

@[simp]
theorem merge_str (old : Json) (value : String) : old.merge (.str value) = .str value := by
  cases old <;> rfl

@[simp]
theorem find?_set (value : Json) (isObj : value.isObject = true) (key other : String)
    (new : Json) :
    (value.set key new).find? other =
      if key = other then some new else value.find? other := by
  cases value with
  | obj members => exact member?_setMember key other new members
  | _ => simp [isObject] at isObj

theorem set_of_find? {members : List (String × Json)} (ordered : Ordered members) {key : String}
    {value : Json} (found : (Json.obj members).find? key = some value) :
    (Json.obj members).set key value = .obj members :=
  congrArg Json.obj (ordered.setMember_of_member? found)

@[simp]
theorem isObject_set (value : Json) (key : String) (new : Json) :
    (value.set key new).isObject = (value.isObject || value.isNull) := by
  cases value <;> rfl

theorem find?_erase (value : Json) (key other : String) :
    (value.erase key).find? other = if key = other then none else value.find? other := by
  cases value with
  | obj members => exact member?_filter_ne key other members
  | _ => simp [erase, find?]

@[simp]
theorem isObject_erase (value : Json) (key : String) :
    (value.erase key).isObject = value.isObject := by
  cases value <;> rfl

theorem find?_ofMembers (members : List (String × Json)) (key : String) :
    (ofMembers members).find? key =
      member? key (members.foldl (fun built entry => setMember entry.1 entry.2 built) []) :=
  rfl

/-- Merging an object without its member `name` into a stored object. -/
theorem find?_merge_erase_of_ordered {new : List (String × Json)} (ordered : Ordered new)
    (old : List (String × Json)) (name key : String) :
    ((Json.obj old).merge ((Json.obj new).erase name)).find? key =
      match (if name = key then none else (Json.obj new).find? key) with
      | none => member? key old
      | some value =>
          some (match member? key old with
            | some stored => merge stored value
            | none => value) := by
  have nodup : ((new.filter fun entry => entry.1 ≠ name).map Prod.fst).Nodup :=
    ordered.nodup.sublist (List.filter_sublist.map Prod.fst)
  rw [← find?_erase]
  exact member?_mergeMembers nodup old key

theorem find?_merge_erase (old : List (String × Json)) (members : List (String × Json))
    (name key : String) :
    ((Json.obj old).merge ((ofMembers members).erase name)).find? key =
      match (if name = key then none else (ofMembers members).find? key) with
      | none => member? key old
      | some value =>
          some (match member? key old with
            | some stored => merge stored value
            | none => value) := by
  obtain ⟨built, builtEq, ordered⟩ := ofMembers_ordered members
  rw [builtEq]
  exact find?_merge_erase_of_ordered ordered old name key

/-- A list replaces what is stored under its name. -/
theorem find?_merge_arr (old : Json) {members : List (String × Json)} {key : String}
    {elements : List Json} (found : (ofMembers members).find? key = some (.arr elements)) :
    (old.merge (ofMembers members)).find? key = some (.arr elements) := by
  obtain ⟨built, builtEq, ordered⟩ := ofMembers_ordered members
  rw [builtEq] at found ⊢
  cases old with
  | obj stored =>
      have merged := member?_mergeMembers ordered.nodup stored key
      rw [show member? key built = some (.arr elements) from found] at merged
      refine Eq.trans merged ?_
      cases member? key stored with
      | none => rfl
      | some former => cases former <;> rfl
  | _ => exact found

theorem isObject_of_find? {value found : Json} {key : String}
    (member : value.find? key = some found) : value.isObject = true := by
  cases value with
  | obj members => rfl
  | _ => simp [find?] at member

theorem index_of_find? {value found : Json} {key : String}
    (member : value.find? key = some found) : value.index key = .ok found := by
  cases value with
  | obj members => simp_all [find?, index]
  | _ => simp [find?] at member

theorem find?_of_at? {value found : Json} {key : String}
    (foundEq : value.at? key = .ok found) : value.find? key = some found := by
  cases value with
  | obj members =>
      simp only [at?] at foundEq
      split at foundEq
      · rename_i member memberEq
        rw [← Except.ok.inj foundEq]
        exact memberEq
      · simp at foundEq
  | _ => simp [at?] at foundEq

theorem find?_of_index_text {value member : Json} {key text : String}
    (memberEq : value.index key = .ok member) (textEq : member.getString = .ok text) :
    value.find? key = some (.str text) := by
  obtain rfl : member = .str text := by
    cases member <;> simp_all [getString]
  cases value with
  | obj members =>
      have found : (member? key members).getD .null = .str text := Except.ok.inj memberEq
      cases memberOf : member? key members with
      | none => simp [memberOf] at found
      | some other => simpa [find?, memberOf] using found
  | _ => simp [index] at memberEq

theorem at?_of_find? {value found : Json} {key : String}
    (member : value.find? key = some found) : value.at? key = .ok found := by
  cases value with
  | obj members => simp_all [find?, at?]
  | _ => simp [find?] at member

theorem indexConst_of_find? {value found : Json} {key : String}
    (member : value.find? key = some found) : value.indexConst key = .ok found := by
  cases value with
  | obj members => simp_all [find?, indexConst]
  | _ => simp [find?] at member

theorem find?_of_indexConst {value found : Json} {key : String}
    (read : value.indexConst key = .ok found) : value.find? key = some found := by
  cases value with
  | obj members =>
      cases member : member? key members with
      | none => simp [indexConst, member] at read
      | some stored => simpa [indexConst, find?, member] using read
  | _ => simp [indexConst] at read

theorem constText_eq_ok {value : Json} {key text : String} :
    value.constText key = .ok text ↔ value.find? key = some (.str text) := by
  constructor
  · intro read
    cases value with
    | obj members =>
        cases found : member? key members with
        | none => simp [constText, indexConst, found, bind, Except.bind] at read
        | some stored =>
            cases stored <;>
              simp_all [constText, indexConst, find?, getString, bind, Except.bind]
    | _ => simp [constText, indexConst, bind, Except.bind] at read
  · intro found
    rw [constText, indexConst_of_find? found]
    rfl

@[simp]
theorem getUInt64_num (value : Nat) : getUInt64 (.num value) = .ok value := by
  simp [getUInt64]

theorem count_pos {value : Json} {key : String} :
    0 < value.count key ↔ ∃ found, value.find? key = some found := by
  cases member : value.find? key <;> simp [count, member]

/-! ## The order of an index -/

/-- The position of a value in the database's order of types and values:
arrays before booleans before null before numbers before objects before
strings, numbers by value and strings lexicographically. -/
def sortKey : Json → Lex (Nat × Lex (Rat × String))
  | .arr _ => toLex (0, toLex (0, ""))
  | .bool value => toLex (1, toLex (if value then 1 else 0, ""))
  | .null => toLex (2, toLex (0, ""))
  | .num value => toLex (3, toLex (value, ""))
  | .real value => toLex (3, toLex (value, ""))
  | .obj _ => toLex (4, toLex (0, ""))
  | .str value => toLex (5, toLex (0, value))

theorem sortKey_num_le (first second : Int) :
    sortKey (.num first) ≤ sortKey (.num second) ↔ first ≤ second := by
  simp only [sortKey, Prod.Lex.toLex_le_toLex]
  simp [le_iff_lt_or_eq]

theorem sortKey_str_le (first second : String) :
    sortKey (.str first) ≤ sortKey (.str second) ↔ first ≤ second := by
  simp only [sortKey, Prod.Lex.toLex_le_toLex]
  simp

theorem sortKey_eq_str {value : Json} {text : String}
    (same : sortKey value = sortKey (.str text)) : value = .str text := by
  cases value with
  | str other => simpa [sortKey] using same
  | _ => simp [sortKey] at same

end Json

end MileExplorer
