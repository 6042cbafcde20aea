import Resampler.Bounds
import Resampler.Decimal.Notation
import Resampler.Settings

/-!
Contract: what the library tells its user besides its results.

Owns:
- the two events that are worth a notice, their levels, and their lines;
- results that carry notices.

Does not own: where the lines are written.
-/

namespace Resampler

inductive Notice where
  /-- A code means no method, and the default one is used. -/
  | unknownMethod (code : Int)
  /-- A voice was made and stands at the start of its region. -/
  | voiceMade (bounds : Bounds) (settings : Settings)
deriving DecidableEq

namespace Notice

def level : Notice → String
  | unknownMethod _ => "WARN"
  | voiceMade _ _ => "TRACE"

/-- Fields of a record with their values, under the record's name. -/
def record (name : String) (fields : List (String × String)) : String :=
  name ++ " \x7b " ++ ", ".intercalate (fields.map fun field => field.1 ++ ": " ++ field.2) ++
    " \x7d"

def boundsText (bounds : Bounds) : String :=
  record "SampleBounds"
    [("start", toString bounds.start), ("end", toString bounds.last),
      ("loopstart", toString bounds.loopStart), ("loopend", toString bounds.loopEnd)]

def settingsText (settings : Settings) : String :=
  record "DspSettings"
    [("interpolation", settings.method.name),
      ("phase_incr", Decimal.textOfSingle settings.speed)]

def text : Notice → String
  | unknownMethod code => s!"Unknown interpolation method {code}, using 4th order"
  | voiceMade bounds settings =>
      "DspVoice::make(bounds=" ++ boundsText bounds ++ ", settings=" ++ settingsText settings ++
        ") -> phase=" ++ toString bounds.start

def line (notice : Notice) : String := notice.level ++ " " ++ notice.text

end Notice

/-- A result with the notices given on the way, oldest first. -/
structure Logged (α : Type) where
  value : α
  notices : List Notice

namespace Logged

instance : Monad Logged where
  pure value := ⟨value, []⟩
  bind first next :=
    let second := next first.value
    ⟨second.value, first.notices ++ second.notices⟩

@[simp] theorem value_pure {α : Type} (value : α) : (pure value : Logged α).value = value := rfl

@[simp] theorem notices_pure {α : Type} (value : α) :
    (pure value : Logged α).notices = [] := rfl

@[simp] theorem value_bind {α β : Type} (first : Logged α) (next : α → Logged β) :
    (first >>= next).value = (next first.value).value := rfl

@[simp] theorem notices_bind {α β : Type} (first : Logged α) (next : α → Logged β) :
    (first >>= next).notices = first.notices ++ (next first.value).notices := rfl

end Logged

/-- The method that a code means. A code without one means the default, so
that every voice can be rendered, and is reported. -/
def Method.ofCode (code : Int) : Logged Method :=
  match ofCode? code with
  | some method => ⟨method, []⟩
  | none => ⟨default, [.unknownMethod code]⟩

theorem Method.ofCode_code (method : Method) : Method.ofCode method.code = ⟨method, []⟩ := by
  simp [Method.ofCode]

end Resampler
