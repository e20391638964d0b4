import Voyager.Json

/-!
Values: what occurs in them, and the bytes of their strings.
-/
namespace Voyager.Json

namespace JsonValuePtr

/-- `u` is `v` or a value within it. -/
inductive Occurs (u : JsonValuePtr) : JsonValuePtr → Prop
  | self : Occurs u u
  | element {x xs} : x ∈ xs → Occurs u x → Occurs u (.array xs)
  | member {k x m} : (k, x) ∈ m → Occurs u x → Occurs u (.obj m)

theorem sizeOf_lt_obj {k : List Byte} {x : JsonValuePtr} {m : List (List Byte × JsonValuePtr)}
    (h : (k, x) ∈ m) : sizeOf x < sizeOf (obj m) := by
  have hlt := List.sizeOf_lt_of_mem h
  simp only [obj.sizeOf_spec, Prod.mk.sizeOf_spec] at hlt ⊢
  omega

theorem sizeOf_lt_array {x : JsonValuePtr} {xs : List JsonValuePtr} (h : x ∈ xs) :
    sizeOf x < sizeOf (array xs) := by
  have hlt := List.sizeOf_lt_of_mem h
  simp only [array.sizeOf_spec]
  omega

/-- Induction over values. -/
theorem induct {P : JsonValuePtr → Prop} (null : P .null) (string : ∀ s, P (.string s))
    (num : ∀ n, P (.num n)) (obj : ∀ m, (∀ k x, (k, x) ∈ m → P x) → P (.obj m))
    (array : ∀ xs, (∀ x ∈ xs, P x) → P (.array xs)) (boolean : ∀ b, P (.boolean b)) :
    ∀ v, P v
  | .null => null
  | .string s => string s
  | .num n => num n
  | .obj m => obj m fun _ x _ => induct null string num obj array boolean x
  | .array xs => array xs fun x _ => induct null string num obj array boolean x
  | .boolean b => boolean b
termination_by v => sizeOf v
decreasing_by
  · exact sizeOf_lt_obj ‹_›
  · exact sizeOf_lt_array ‹_›

mutual

/-- The bytes of all strings and keys. -/
def weight : JsonValuePtr → ℕ
  | .string s => s.length
  | .obj m => weightMembers m
  | .array xs => weightElements xs
  | _ => 0

def weightMembers : List (List Byte × JsonValuePtr) → ℕ
  | [] => 0
  | (k, v) :: rest => k.length + weight v + weightMembers rest

def weightElements : List JsonValuePtr → ℕ
  | [] => 0
  | v :: rest => weight v + weightElements rest

end

mutual

/-- The value with its strings and keys made empty. -/
def shape : JsonValuePtr → JsonValuePtr
  | .null => .null
  | .string _ => .string []
  | .num n => .num n
  | .obj m => .obj (shapeMembers m)
  | .array xs => .array (shapeElements xs)
  | .boolean b => .boolean b

def shapeMembers : List (List Byte × JsonValuePtr) → List (List Byte × JsonValuePtr)
  | [] => []
  | (_, v) :: rest => ([], shape v) :: shapeMembers rest

def shapeElements : List JsonValuePtr → List JsonValuePtr
  | [] => []
  | v :: rest => shape v :: shapeElements rest

end

theorem shapeElements_eq (xs : List JsonValuePtr) : shapeElements xs = xs.map shape := by
  induction xs with
  | nil => rfl
  | cons x xs ih => rw [shapeElements, ih, List.map_cons]

theorem shapeMembers_eq (m : List (List Byte × JsonValuePtr)) :
    shapeMembers m = m.map fun e => ([], shape e.2) := by
  induction m with
  | nil => rfl
  | cons e m ih =>
    obtain ⟨k, v⟩ := e
    rw [shapeMembers, ih, List.map_cons]

/-- Numbers are the same in a value and its shape. -/
theorem occurs_num_shape {n : Int} (v : JsonValuePtr) :
    Occurs (.num n) (shape v) ↔ Occurs (.num n) v := by
  induction v using induct with
  | null => rfl
  | num => rfl
  | boolean => rfl
  | string s => exact ⟨nofun, nofun⟩
  | obj m ih =>
    rw [shape, shapeMembers_eq]
    constructor
    · rintro (_ | _ | ⟨hmem, hocc⟩)
      obtain ⟨⟨k, x⟩, hx, heq⟩ := List.mem_map.mp hmem
      cases heq
      exact .member hx ((ih k x hx).mp hocc)
    · rintro (_ | _ | ⟨hmem, hocc⟩)
      exact .member (List.mem_map.mpr ⟨_, hmem, rfl⟩) ((ih _ _ hmem).mpr hocc)
  | array xs ih =>
    rw [shape, shapeElements_eq]
    constructor
    · rintro (_ | ⟨hmem, hocc⟩)
      obtain ⟨x, hx, rfl⟩ := List.mem_map.mp hmem
      exact .element hx ((ih x hx).mp hocc)
    · rintro (_ | ⟨hmem, hocc⟩)
      exact .element (List.mem_map.mpr ⟨_, hmem, rfl⟩) ((ih _ hmem).mpr hocc)

/-! What holds of all values within a value. -/

def Everywhere (P : JsonValuePtr → Prop) (v : JsonValuePtr) : Prop := ∀ u, Occurs u v → P u

section

variable {P : JsonValuePtr → Prop}

theorem everywhere_array {xs : List JsonValuePtr} :
    Everywhere P (.array xs) ↔ P (.array xs) ∧ ∀ x ∈ xs, Everywhere P x := by
  constructor
  · intro h
    exact ⟨h _ .self, fun x hx u hu => h u (.element hx hu)⟩
  · rintro ⟨hself, helements⟩ u (_ | ⟨hx, hu⟩)
    · exact hself
    · exact helements _ hx u hu

theorem everywhere_obj {m : List (List Byte × JsonValuePtr)} :
    Everywhere P (.obj m) ↔ P (.obj m) ∧ ∀ e ∈ m, Everywhere P e.2 := by
  constructor
  · intro h
    exact ⟨h _ .self, fun e he u hu => h u (.member he hu)⟩
  · rintro ⟨hself, hmembers⟩ u (_ | _ | ⟨hx, hu⟩)
    · exact hself
    · exact hmembers _ hx u hu

theorem everywhere_null : Everywhere P .null ↔ P .null :=
  ⟨fun h => h _ .self, fun h _ => by rintro ⟨⟩; exact h⟩

theorem everywhere_string {s : List Byte} : Everywhere P (.string s) ↔ P (.string s) :=
  ⟨fun h => h _ .self, fun h _ => by rintro ⟨⟩; exact h⟩

theorem everywhere_num {n : Int} : Everywhere P (.num n) ↔ P (.num n) :=
  ⟨fun h => h _ .self, fun h _ => by rintro ⟨⟩; exact h⟩

theorem everywhere_boolean {b : Bool} : Everywhere P (.boolean b) ↔ P (.boolean b) :=
  ⟨fun h => h _ .self, fun h _ => by rintro ⟨⟩; exact h⟩

end

/-- Strings, arrays and objects; the members of an object have the order of a map. -/
def Textual : JsonValuePtr → Prop
  | .string _ | .array _ => True
  | .obj m => (m.map Prod.fst).Pairwise (· < ·)
  | .null | .num _ | .boolean _ => False

/-- Null and the booleans. -/
def Literal : JsonValuePtr → Prop
  | .null | .boolean _ => True
  | .string _ | .num _ | .obj _ | .array _ => False

def Numeric : JsonValuePtr → Prop
  | .num _ => True
  | .null | .boolean _ | .string _ | .obj _ | .array _ => False

theorem weightMembers_insert (k : List Byte) (v : JsonValuePtr)
    (m : List (List Byte × JsonValuePtr)) :
    weightMembers (Lib.OrderedMap.insert k v m) ≤ weightMembers m + (k.length + weight v) := by
  induction m with
  | nil => simp [Lib.OrderedMap.insert, weightMembers]
  | cons e m ih =>
    obtain ⟨k', v'⟩ := e
    unfold Lib.OrderedMap.insert
    split_ifs <;> simp only [weightMembers] <;> omega

theorem weightMembers_insertAll (m es : List (List Byte × JsonValuePtr)) :
    weightMembers (Lib.OrderedMap.insertAll m es) ≤ weightMembers m + weightMembers es := by
  induction es generalizing m with
  | nil => simp [Lib.OrderedMap.insertAll, weightMembers]
  | cons e es ih =>
    obtain ⟨k, v⟩ := e
    have hle := (ih (Lib.OrderedMap.insert k v m)).trans
      (Nat.add_le_add_right (weightMembers_insert k v m) _)
    rw [Nat.add_assoc] at hle
    exact hle

end JsonValuePtr

end Voyager.Json
