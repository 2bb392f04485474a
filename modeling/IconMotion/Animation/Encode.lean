import IconMotion.Animation.Basic

namespace IconMotion

abbrev Encoder (τ : Type) := τ → Json

namespace Encoder

variable {τ : Type}

def json : Encoder Json := id

def float32 : Encoder Float32 := Json.ofFloat32

def byte : Encoder UInt8 := fun n => .ofNat n.toNat

def word32 : Encoder UInt32 := fun n => .ofNat n.toNat

def optional (e : Encoder τ) : Encoder (Option τ)
  | none => .null
  | some x => e x

def list (e : Encoder τ) : Encoder (List τ) := fun xs => .arr (xs.map e)

def pair : Encoder (Pair Float32) := fun p => .arr [float32 p.x, float32 p.y]

def keyframe (e : Encoder τ) : Encoder (Keyframe Float32 τ) := fun k =>
  .obj [("e", optional e k.stop), ("h", optional byte k.hold), ("i", optional pair k.easeIn),
    ("o", optional pair k.easeOut), ("s", optional e k.start), ("t", float32 k.time),
    ("ti", optional (list float32) k.tangentIn), ("to", optional (list float32) k.tangentOut)]

def track (e : Encoder τ) : Encoder (Track Float32 τ)
  | .empty => .null
  | .fixed v => e v
  | .keyed ks => list (keyframe e) ks

def property (e : Encoder τ) : Encoder (Property τ) := fun p =>
  .obj [("a", byte p.animated), ("ix", optional word32 p.index), ("k", track e p.track),
    ("x", optional .str p.expression)]

def effectValue : Encoder EffectValue := fun v =>
  .obj [("ix", optional word32 v.index), ("mn", optional .str v.matchName),
    ("nm", optional .str v.name), ("ty", optional byte v.type),
    ("v", optional (property json) v.property)]

def effect : Encoder Effect := fun f =>
  .obj [("ef", optional (list effectValue) f.values), ("en", optional byte f.enabled),
    ("ix", optional word32 f.index), ("mn", optional .str f.matchName),
    ("nm", optional .str f.name), ("ty", optional byte f.type)]

def layer : Encoder Layer := fun l =>
  .obj [("ef", optional (list effect) l.effects), ("ind", optional word32 l.index),
    ("ip", float32 l.inPoint), ("nm", optional .str l.name), ("op", float32 l.outPoint),
    ("st", float32 l.startTime), ("ty", byte l.type)]

def animation : Encoder Animation := fun a =>
  .obj [("fr", float32 a.frameRate), ("h", word32 a.height), ("ip", float32 a.inPoint),
    ("layers", list layer a.layers), ("nm", optional .str a.name), ("op", float32 a.outPoint),
    ("v", optional .str a.version), ("w", word32 a.width)]

end Encoder

end IconMotion
