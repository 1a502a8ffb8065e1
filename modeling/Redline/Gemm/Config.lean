import Redline.Lib.Gemm

/-!
# GEMM configurations

`gemm/cublaslt_gemm.hpp`: the configuration tuple and its factories, and the product that a run of it
computes.
-/

namespace Redline

inductive CublasOperation where
  | opN
  | opT
  deriving DecidableEq, Repr

inductive CudaDataType where
  | r16F
  | r32F
  deriving DecidableEq, Repr

inductive GemmEpilogue where
  | kNone
  | kBias
  deriving DecidableEq, Repr

structure GemmConfig where
  m : Int
  n : Int
  k : Int
  opA : CublasOperation
  opB : CublasOperation
  lda : Int
  ldb : Int
  ldd : Int
  typeD : CudaDataType
  epilogue : GemmEpilogue
  batch : Int
  strideA : Int
  strideB : Int
  strideD : Int
  minAlignABytes : Int
  minAlignBBytes : Int
  minAlignDBytes : Int
  deriving DecidableEq, Repr

namespace GemmConfig

def linear (rows outFeatures inFeatures actRowStride outRowStride : Int) (epilogue : GemmEpilogue) :
    GemmConfig where
  m := outFeatures
  n := rows
  k := inFeatures
  opA := .opT
  opB := .opN
  lda := inFeatures
  ldb := actRowStride
  ldd := outRowStride
  typeD := .r16F
  epilogue := epilogue
  batch := 1
  strideA := 0
  strideB := 0
  strideD := 0
  minAlignABytes := 16
  minAlignBBytes := 16
  minAlignDBytes := 16

def prefillScores (chunkRows ctx headDim headsPerGroup qRowStride : Int) : GemmConfig where
  m := ctx
  n := chunkRows
  k := headDim
  opA := .opT
  opB := .opN
  lda := headDim
  ldb := qRowStride
  ldd := ctx
  typeD := .r32F
  epilogue := .kNone
  batch := headsPerGroup
  strideA := 0
  strideB := if 1 < headsPerGroup then headDim else 0
  strideD := if 1 < headsPerGroup then chunkRows * ctx else 0
  minAlignABytes := 16
  minAlignBBytes := 16
  minAlignDBytes := 4

def prefillPv (chunkRows ctx headDim headsPerGroup outRowStride : Int) : GemmConfig where
  m := headDim
  n := chunkRows
  k := ctx
  opA := .opN
  opB := .opN
  lda := headDim
  ldb := ctx
  ldd := outRowStride
  typeD := .r16F
  epilogue := .kNone
  batch := headsPerGroup
  strideA := 0
  strideB := if 1 < headsPerGroup then chunkRows * ctx else 0
  strideD := if 1 < headsPerGroup then headDim else 0
  minAlignABytes := 16
  minAlignBBytes := 2
  minAlignDBytes := 16

/-- the product at three pointers -/
def product (c : GemmConfig) (a b d : Int) : StridedGemm.Product where
  m := c.m.toNat
  n := c.n.toNat
  k := c.k.toNat
  batch := c.batch.toNat
  a := ⟨a, c.lda, c.opA = .opT, c.strideA⟩
  b := ⟨b, c.ldb, c.opB = .opT, c.strideB⟩
  d := ⟨d, c.ldd, false, c.strideD⟩

end GemmConfig
end Redline
