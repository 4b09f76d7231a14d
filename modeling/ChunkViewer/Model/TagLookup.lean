import ChunkViewer.Model.NBTTag

/-!
# Searching a tag

The lookups of `NBTTag`. The inner tags are an `unordered_map`, whose iteration order the
language leaves open: an `IterationOrder` gives one for every node, and the functions that
iterate take it as a parameter.
-/

namespace ChunkViewer

/-- How the maps iterate. A node is named by the keys on the way to it. -/
structure IterationOrder where
  iterate : List String → List (String × NBTTag) → List (String × NBTTag)
  perm : ∀ path inner, (iterate path inner).Perm inner

/-- The order in which the keys were added. -/
def IterationOrder.insertion : IterationOrder := ⟨fun _ inner => inner, fun _ _ => List.Perm.rfl⟩

lemma IterationOrder.sizeOf_lt {order : IterationOrder} {path : List String} {t : NBTTag}
    {p : String × NBTTag} (h : p ∈ order.iterate path t.innerTags) : sizeOf p.2 < sizeOf t := by
  have hlt := List.sizeOf_lt_of_mem ((order.perm path t.innerTags).mem_iff.mp h)
  obtain ⟨key, inner⟩ := p
  obtain ⟨type, name, intVal, shortVal, byteVal, longVal, stringVal, innerTags⟩ := t
  simp only [Prod.mk.sizeOf_spec, NBTTag.mk.sizeOf_spec] at hlt ⊢
  omega

/-- Searches the inner tags recursively for one with the name `key`. -/
def NBTTag.findInnerTag (order : IterationOrder) (key : String) (path : List String)
    (t : NBTTag) : Option NBTTag :=
  -- Surface level tags come first.
  match t.innerTags.lookup key with
  | some tag => some tag
  | none => (order.iterate path t.innerTags).attach.findSome? fun p =>
      p.1.2.findInnerTag order key (path ++ [p.1.1])
termination_by sizeOf t
decreasing_by exact IterationOrder.sizeOf_lt p.2

/-- Ways in which the viewer does not complete, beside those of the loader. -/
inductive Failure
  | stop (s : Stop)
  | nullTag
  | outOfRange
  | releasedArray
deriving DecidableEq, Repr

/-- `t->stringVal` through a pointer that a search returned. -/
def derefString : Option NBTTag → Except Failure String
  | some t => .ok t.stringVal
  | none => .error .nullTag

/-- The specific name for a block (if there is one). -/
def NBTTag.getBlockType (order : IterationOrder) (tag : NBTTag) : Except Failure String := do
  let find key := tag.findInnerTag order key []
  let blockName ← derefString (find "name")
  if blockName = "minecraft:stone" then do
    let stoneType ← derefString (find "stone_type")
    if stoneType = "stone" then .ok "stone" else .ok ("stone_" ++ stoneType)
  else if blockName = "minecraft:leaves" ∨ blockName = "minecraft:leaves2" then
    match find "old_leaf_type" with
    | some t => .ok ("leaves_" ++ t.stringVal ++ "_opaque")
    | none => do
      let leafType ← derefString (find "new_leaf_type")
      .ok ("leaves_" ++ leafType ++ "_opaque")
  else if blockName = "minecraft:log" then
    match find "old_log_type" with
    | some t => .ok ("log_" ++ t.stringVal)
    | none => do
      let logType ← derefString (find "new_log_type")
      .ok ("log" ++ logType)
  else if blockName = "minecraft:sand" then do
    let sandType ← derefString (find "sand_type")
    if sandType = "normal" then .ok "sand" else .ok sandType
  else if blockName = "minecraft:grass" then .ok "grass_side_carried"
  else if blockName = "minecraft:sandstone" then .ok "sandstone_normal"
  else if blockName = "minecraft:water" then .ok "water_still"
  else if blockName = "minecraft:lava" then .ok "lava_still"
  else .ok "NULL"

/-- The string tags below a tag, in iteration order. -/
def NBTTag.printInnerTags (order : IterationOrder) (path : List String) (t : NBTTag) : String :=
  (order.iterate path t.innerTags).attach.foldl (fun toPrint p =>
    let inner := p.1.2
    let toPrint := if inner.type = .STRING then
      toPrint ++ inner.name ++ ":" ++ inner.stringVal ++ " " else toPrint
    toPrint ++ inner.printInnerTags order (path ++ [p.1.1])) ""
termination_by sizeOf t
decreasing_by exact IterationOrder.sizeOf_lt p.2

end ChunkViewer
