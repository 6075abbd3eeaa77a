import VehicleLink.Schema.Field

namespace VehicleLink.Layout

/-- Puts a field in front of the first one that is not wider. -/
def place (f : Field) : List Field → List Field
  | [] => [f]
  | g :: rest => if f.primitive.size < g.primitive.size then g :: place f rest else f :: g :: rest

def order : List Field → List Field
  | [] => []
  | f :: rest => place f (order rest)

def size : List Field → Nat
  | [] => 0
  | f :: rest => f.wireSize + size rest

def slots (fields : List Field) : List Slot := fields.flatMap Field.slots

theorem place_perm (f : Field) (fields : List Field) : (place f fields).Perm (f :: fields) := by
  induction fields with
  | nil => exact .refl _
  | cons g rest ih =>
    simp only [place]
    split
    · exact (ih.cons g).trans (.swap f g rest)
    · exact .refl _

theorem order_perm (fields : List Field) : (order fields).Perm fields := by
  induction fields with
  | nil => exact .refl _
  | cons f rest ih => exact (place_perm f (order rest)).trans (ih.cons f)

end VehicleLink.Layout
