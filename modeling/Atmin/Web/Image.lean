import Mathlib.Order.Lattice

/-!
# Re-encoding images (`image.ts`)

What a canvas makes of some bytes is not computed here; which image it is asked for, and which of its
answers is taken, is.
-/

namespace Atmin.Web

/-- The canvas of the browser. A quality is in hundredths. -/
structure CanvasApi where
  /-- `createImageBitmap`: the size, unless the bytes are no image it can decode. -/
  decode : List UInt8 → Option (Nat × Nat)
  /-- `Math.round(edge * (maxEdge / longest))`, in floating point. -/
  scaled : Nat → Nat → Nat → Nat
  /-- The image drawn at a size and encoded as JPEG, unless that fails. -/
  toJpeg : List UInt8 → Nat → Nat → Nat → Option (List UInt8)

structure Reencoded where
  bytes : List UInt8
  width : Nat
  height : Nat
  deriving DecidableEq, Repr

def OPTIMIZED_MAX_EDGE : Nat := 2048
def OPTIMIZED_QUALITY : Nat := 80
def PREVIEW_MAX_EDGE : Nat := 512
def PREVIEW_TARGET_BYTES : Nat := 50 * 1024
def PREVIEW_THRESHOLD_BYTES : Nat := 100 * 1024
def PREVIEW_THRESHOLD_EDGE : Nat := 1024
def PREVIEW_QUALITY_STEPS : List Nat := [70, 50, 40]

def isOptimizableImage (type : String) : Bool :=
  ["image/jpeg", "image/png", "image/webp"].contains type

def needsPreview (fullBytes width height : Nat) : Bool :=
  decide (PREVIEW_THRESHOLD_BYTES < fullBytes) || decide (PREVIEW_THRESHOLD_EDGE < max width height)

section Canvas

variable (canvas : CanvasApi)

def fitWithin (w h maxEdge : Nat) : Nat × Nat :=
  if max w h ≤ maxEdge then (w, h)
  else (max 1 (canvas.scaled w (max w h) maxEdge), max 1 (canvas.scaled h (max w h) maxEdge))

/-- A throw is none. -/
def reencodeImage (src : List UInt8) (maxEdge quality : Nat) : Option Reencoded := do
  let (w, h) ← canvas.decode src
  let (width, height) := fitWithin canvas w h maxEdge
  let bytes ← canvas.toJpeg src width height quality
  pure { bytes, width, height }

def imageSize (src : List UInt8) : Option (Nat × Nat) := canvas.decode src

/-- The loop of `makePreview`. -/
def previewAt (src : List UInt8) (smallest : Option Reencoded) : List Nat → Option Reencoded
  | [] => smallest
  | quality :: rest => match reencodeImage canvas src PREVIEW_MAX_EDGE quality with
    | none => none
    | some r =>
      if r.bytes.length ≤ PREVIEW_TARGET_BYTES then some r
      else previewAt src (match smallest with
        | some s => if r.bytes.length < s.bytes.length then some r else some s
        | none => some r) rest

def makePreview (src : List UInt8) : Option Reencoded :=
  previewAt canvas src none PREVIEW_QUALITY_STEPS

end Canvas

/-! ### What a preview is -/

variable {canvas : CanvasApi} {src : List UInt8}

/-- The image again, at one of the qualities. -/
def Rendition (canvas : CanvasApi) (src : List UInt8) (qualities : List Nat) (r : Reencoded) : Prop :=
  ∃ quality ∈ qualities, reencodeImage canvas src PREVIEW_MAX_EDGE quality = some r

theorem previewAt_rendition {smallest : Option Reencoded} {qualities : List Nat} {r : Reencoded}
    (made : previewAt canvas src smallest qualities = some r) :
    smallest = some r ∨ Rendition canvas src qualities r := by
  induction qualities generalizing smallest with
  | nil => exact .inl made
  | cons quality rest ih =>
    rw [previewAt] at made
    split at made
    next => cases made
    next first encoded =>
      have this : Rendition canvas src (quality :: rest) first :=
        ⟨quality, List.mem_cons_self, encoded⟩
      split at made
      next => cases made; exact .inr this
      next =>
        rcases ih made with kept | ⟨later, member, again⟩
        · split at kept
          next =>
            split at kept
            next => cases kept; exact .inr this
            next => exact .inl kept
          next => cases kept; exact .inr this
        · exact .inr ⟨later, List.mem_cons_of_mem _ member, again⟩

/-- A preview is one of the renditions. -/
theorem makePreview_rendition {r : Reencoded} (made : makePreview canvas src = some r) :
    Rendition canvas src PREVIEW_QUALITY_STEPS r := by
  rcases previewAt_rendition made with none_ | this
  · cases none_
  · exact this

/-- A rendition that is no larger than any is found where none is small enough. -/
theorem previewAt_smallest {smallest : Option Reencoded} {qualities : List Nat} {r : Reencoded}
    (made : previewAt canvas src smallest qualities = some r)
    (large : PREVIEW_TARGET_BYTES < r.bytes.length) :
    (∀ s, smallest = some s → r.bytes.length ≤ s.bytes.length) ∧
      ∀ s, Rendition canvas src qualities s → r.bytes.length ≤ s.bytes.length := by
  induction qualities generalizing smallest with
  | nil =>
    refine ⟨fun s its => ?_, ?_⟩
    · rw [previewAt, its] at made
      cases made
      exact Nat.le_refl _
    · rintro s ⟨quality, member, _⟩
      cases member
  | cons quality rest ih =>
    rw [previewAt] at made
    split at made
    next => cases made
    next first encoded =>
      split at made
      -- a rendition under the target ends the search
      next small =>
        cases made
        exact absurd small (Nat.not_le.mpr large)
      next =>
        obtain ⟨least, others⟩ := ih made
        -- the smaller of the old and the new one is kept
        have both : r.bytes.length ≤ first.bytes.length ∧
            ∀ s, smallest = some s → r.bytes.length ≤ s.bytes.length := by
          cases smallest with
          | none => exact ⟨least first rfl, fun s its => by cases its⟩
          | some old =>
            by_cases less : first.bytes.length < old.bytes.length
            · have bound := least first (by simp [less])
              refine ⟨bound, fun s its => ?_⟩
              cases its
              exact Nat.le_trans bound (Nat.le_of_lt less)
            · have bound := least old (by simp [less])
              refine ⟨Nat.le_trans bound (Nat.not_lt.mp less), fun s its => ?_⟩
              cases its
              exact bound
        refine ⟨both.2, ?_⟩
        rintro s ⟨later, member, again⟩
        rcases List.mem_cons.mp member with rfl | member
        · rw [encoded] at again
          cases again
          exact both.1
        · exact others s ⟨later, member, again⟩

/-- A preview over the target is the smallest of the renditions. -/
theorem makePreview_smallest {r : Reencoded} (made : makePreview canvas src = some r) :
    r.bytes.length ≤ PREVIEW_TARGET_BYTES ∨
      ∀ s, Rendition canvas src PREVIEW_QUALITY_STEPS s → r.bytes.length ≤ s.bytes.length := by
  rcases Nat.lt_or_ge PREVIEW_TARGET_BYTES r.bytes.length with large | small
  · exact .inr (previewAt_smallest made large).2
  · exact .inl small

end Atmin.Web
