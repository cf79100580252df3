/-
This file models the tagged union of the ten sketches a histogram's buckets may hold, and its wire
form: the variant's own envelope, taken apart into its kind, its metadata and its payload. What the
sketches do themselves, and their own codecs, are parameters.
-/

import AsapSketchlib.EnvelopeBlocks
import AsapSketchlib.ExponentialHistogram

namespace AsapSketchlib

/-! ### Variants -/

inductive EHVariant where
  | cm
  | coco
  | countL2hh
  | cs
  | dds
  | elastic
  | hll
  | kll
  | uniform
  | univmon
  deriving DecidableEq

namespace EHVariant

def kindId : EHVariant → List UInt8
  | cm => [0x02, 0x00]
  | coco => [0x0c, 0x00]
  | countL2hh => [0x19, 0x00]
  | cs => [0x04, 0x00]
  | dds => [0x05, 0x00]
  | elastic => [0x0b, 0x00]
  | hll => [0x01, 0x02]
  | kll => [0x06, 0x00]
  | uniform => [0x0d, 0x00]
  | univmon => [0x10, 0x00]

def variantName : EHVariant → String
  | cm => "CountMin"
  | coco => "Coco"
  | countL2hh => "CountL2HH"
  | cs => "CountSketch"
  | dds => "DDSketch"
  | elastic => "Elastic"
  | hll => "HLL"
  | kll => "KLL"
  | uniform => "UniformSampling"
  | univmon => "UnivMon"

def all : List EHVariant := [cm, coco, countL2hh, cs, dds, elastic, hll, kll, uniform, univmon]

def ofKindId (kindId : List UInt8) : Option EHVariant :=
  all.find? fun variant => variant.kindId = kindId

end EHVariant

/-! ### The union -/

/-- What the ten sketches do and how they are coded. The mass is `get_l2_sqr` of a CountL2HH and the
square of `calc_l2` of a UnivMon. A build without the feature has no uniform sampler. -/
structure EHSketches where
  Member : EHVariant → Type
  merge : {variant : EHVariant} → Member variant → Member variant → Except String (Member variant)
  mass : {variant : EHVariant} → Member variant → ℚ
  serializeToBytes : {variant : EHVariant} → Member variant →
    ExceptT RmpEncodeError (Except Panic) (List UInt8)
  deserializeFromBytes : (variant : EHVariant) → List UInt8 →
    ExceptT RmpDecodeError (Except Panic) (Member variant)
  experimental : Bool
  uniformCarried : Member .uniform → experimental = true

abbrev EHSketchList (sketches : EHSketches) := Σ variant, sketches.Member variant

namespace EHSketches

variable (sketches : EHSketches)

def supportsNorm (sketch : EHSketchList sketches) (norm : SketchNorm) : Bool :=
  match sketch.1 with
  | .countL2hh | .univmon => norm = .l2
  | _ => norm = .l1

def ehL2Mass (sketch : EHSketchList sketches) : Option ℚ :=
  match sketch.1 with
  | .countL2hh | .univmon => some (sketches.mass sketch.2)
  | _ => none

def mergeSketch (sketch other : EHSketchList sketches) : Except String (EHSketchList sketches) :=
  if same : other.1 = sketch.1 then
    (sketches.merge sketch.2 (same ▸ other.2)).map fun merged => ⟨sketch.1, merged⟩
  else .error "Cannot merge sketches of different types"

theorem fst_of_mergeSketch {sketch other merged : EHSketchList sketches}
    (joined : sketches.mergeSketch sketch other = .ok merged) : merged.1 = sketch.1 := by
  rw [mergeSketch] at joined
  split at joined
  · next same =>
    cases union : sketches.merge sketch.2 (same ▸ other.2) with
    | error refusal =>
      rw [union] at joined
      cases joined
    | ok sketch' =>
      rw [union] at joined
      rw [← Except.ok.inj joined]
  · cases joined

def kind {Input : Type} (update : Input → EHSketchList sketches → EHSketchList sketches) :
    EHSketchKind (EHSketchList sketches) Input where
  insert sketch input := update input sketch
  merge := sketches.mergeSketch
  ehL2Mass := sketches.ehL2Mass
  supportsNorm := sketches.supportsNorm

/-- `update_with`: any updater. -/
abbrev updateWith : EHSketchKind (EHSketchList sketches)
    (EHSketchList sketches → EHSketchList sketches) := sketches.kind fun updater => updater

/-- A variant's own envelope without the framing. -/
structure SketchState where
  kindId : List UInt8
  descriptor : List UInt8
  state : List UInt8
  deriving DecidableEq

/-- `{:02x?}` of a list of bytes. -/
def hexBytes (bytes : List UInt8) : String :=
  "[" ++ ", ".intercalate (bytes.map Envelope.hexByte) ++ "]"

/-- Splits one variant's own envelope, pinning its kind. -/
def triple (variant : EHVariant) (bytes : List UInt8) :
    ExceptT RmpEncodeError (Except Panic) SketchState :=
  match Envelope.split bytes with
  | .error message => throw (.syntaxError message)
  | .ok (kindId, descriptor, state) =>
    if kindId ≠ variant.kindId then
      throw (.syntaxError ("ASAPv1 EHSketchList: " ++ variant.variantName ++ " produced kind_id " ++
        hexBytes kindId ++ ", expected " ++ hexBytes variant.kindId))
    else pure ⟨variant.kindId, descriptor, state⟩

def sketchState (sketch : EHSketchList sketches) :
    ExceptT RmpEncodeError (Except Panic) SketchState := do
  let bytes ← sketches.serializeToBytes sketch.2
  triple sketch.1 bytes

def rebuildSketch (triple : SketchState) :
    ExceptT RmpDecodeError (Except Panic) (EHSketchList sketches) :=
  if sketches.experimental = false ∧ triple.kindId = EHVariant.uniform.kindId then
    throw (.uncategorized ("ASAPv1 EHSketchList: variant " ++ EHVariant.uniform.variantName ++
      " (kind_id " ++ hexBytes triple.kindId ++ ") needs the experimental feature"))
  else
    match EHVariant.ofKindId triple.kindId with
    | none => throw (.uncategorized ("ASAPv1 EHSketchList: kind_id " ++ hexBytes triple.kindId ++
        " is not a wire variant"))
    | some variant => do
      let bytes ← ExceptT.lift (Envelope.encode triple.kindId triple.descriptor triple.state)
      let sketch ← sketches.deserializeFromBytes variant bytes
      pure ⟨variant, sketch⟩

variable {Behaviour : Type}

/-- A sketch that its own encoder writes, as an envelope of its kind, and its own decoder reads back
as one of the same behaviour. -/
def RoundTrips (behaviour : EHSketchList sketches → Behaviour) (sketch : EHSketchList sketches) :
    Prop :=
  ∃ metadata payload bytes restored,
    Envelope.encode sketch.1.kindId metadata payload = .ok bytes ∧
      sketches.serializeToBytes sketch.2 = pure bytes ∧
        sketches.deserializeFromBytes sketch.1 bytes = pure restored ∧
          behaviour ⟨sketch.1, restored⟩ = behaviour sketch

variable {sketches}

end EHSketches

end AsapSketchlib
