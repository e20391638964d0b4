import Mathlib.Data.List.Basic

/-!
One direction of a connection that delivers in order. Of what is under way any
part may arrive at a time. When the connection breaks, only a beginning of what
is under way can still arrive, and nothing of what is written later.
-/
namespace Voyager.Lib

structure Pipe (β : Type*) where
  written : List β
  seen : List β
  inFlight : List β
  up : Bool
  arrives : seen ++ inFlight <+: written
  whole : up = true → seen ++ inFlight = written

namespace Pipe

variable {β : Type*}

def create : Pipe β := ⟨[], [], [], true, List.nil_prefix, fun _ => rfl⟩

def write (d : Pipe β) (data : List β) : Pipe β where
  written := d.written ++ data
  seen := d.seen
  inFlight := if d.up then d.inFlight ++ data else d.inFlight
  up := d.up
  arrives := by
    split
    · rename_i hup
      have hall : d.seen ++ (d.inFlight ++ data) = d.written ++ data := by
        rw [← List.append_assoc, d.whole hup]
      exact hall ▸ List.prefix_rfl
    · exact d.arrives.trans (List.prefix_append _ _)
  whole hup := by rw [if_pos hup, ← List.append_assoc, d.whole hup]

def read (d : Pipe β) (n : ℕ) : Pipe β where
  written := d.written
  seen := d.seen ++ d.inFlight.take n
  inFlight := d.inFlight.drop n
  up := d.up
  arrives := by
    rw [List.append_assoc, List.take_append_drop]
    exact d.arrives
  whole hup := by
    rw [List.append_assoc, List.take_append_drop]
    exact d.whole hup

/-- The connection breaks: only `n` of the elements under way can still arrive. -/
def cut (d : Pipe β) (n : ℕ) : Pipe β where
  written := d.written
  seen := d.seen
  inFlight := d.inFlight.take n
  up := false
  arrives := ((List.prefix_append_right_inj d.seen).mpr (List.take_prefix n d.inFlight)).trans
    d.arrives
  whole hup := by cases hup

variable (d : Pipe β) (data : List β) (n : ℕ)

@[simp] theorem written_create : (create : Pipe β).written = [] := rfl

@[simp] theorem seen_create : (create : Pipe β).seen = [] := rfl

@[simp] theorem written_write : (d.write data).written = d.written ++ data := rfl

@[simp] theorem seen_write : (d.write data).seen = d.seen := rfl

@[simp] theorem written_read : (d.read n).written = d.written := rfl

@[simp] theorem seen_read : (d.read n).seen = d.seen ++ d.inFlight.take n := rfl

@[simp] theorem written_cut : (d.cut n).written = d.written := rfl

@[simp] theorem seen_cut : (d.cut n).seen = d.seen := rfl

/-- What is read next follows on what has been read. -/
theorem seen_take_prefix : d.seen ++ d.inFlight.take n <+: d.written :=
  ((List.prefix_append_right_inj d.seen).mpr (List.take_prefix n d.inFlight)).trans d.arrives

end Pipe

end Voyager.Lib
