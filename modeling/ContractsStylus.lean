import ContractsStylus.Access.AccessControl
import ContractsStylus.Access.AccessControlEnumerable
import ContractsStylus.Access.AccessControlReach
import ContractsStylus.Access.Ownable
import ContractsStylus.Access.Ownable2Step
import ContractsStylus.Crypto.CompressedPoints
import ContractsStylus.Crypto.Eddsa
import ContractsStylus.Crypto.EddsaLaws
import ContractsStylus.Crypto.EddsaUniqueness
import ContractsStylus.Crypto.FieldGenerators
import ContractsStylus.Crypto.FieldInstances
import ContractsStylus.Crypto.FieldOps
import ContractsStylus.Crypto.Fp
import ContractsStylus.Crypto.FpConversions
import ContractsStylus.Crypto.FpField
import ContractsStylus.Crypto.FpInverse
import ContractsStylus.Crypto.FpLaws
import ContractsStylus.Crypto.Hash
import ContractsStylus.Crypto.Limb
import ContractsStylus.Crypto.Merkle
import ContractsStylus.Crypto.MerkleProofs
import ContractsStylus.Crypto.MerkleReads
import ContractsStylus.Crypto.Pedersen
import ContractsStylus.Crypto.PedersenLogarithms
import ContractsStylus.Crypto.Poseidon2
import ContractsStylus.Crypto.Poseidon2Instances
import ContractsStylus.Crypto.Poseidon2Permutation
import ContractsStylus.Crypto.Poseidon2Sponge
import ContractsStylus.Crypto.Uint
import ContractsStylus.Crypto.UintConversions
import ContractsStylus.Crypto.UintLaws
import ContractsStylus.Crypto.UintParsing
import ContractsStylus.Crypto.UintShifts
import ContractsStylus.Crypto.WideningMul
import ContractsStylus.Curve.BatchInversion
import ContractsStylus.Curve.Curve25519
import ContractsStylus.Curve.EdwardsCofactors
import ContractsStylus.Curve.EdwardsInstances
import ContractsStylus.Curve.ScalarMul
import ContractsStylus.Curve.ShortWeierstrass
import ContractsStylus.Curve.ShortWeierstrassLaw
import ContractsStylus.Curve.Starknet
import ContractsStylus.Curve.Subgroup
import ContractsStylus.Curve.TwistedEdwards
import ContractsStylus.Curve.TwistedEdwardsLaw
import ContractsStylus.Curve.WeierstrassInstances
import ContractsStylus.Finance.VestingWallet
import ContractsStylus.Library.BinaryInversion
import ContractsStylus.Library.Bisection
import ContractsStylus.Library.ChallengeResponse
import ContractsStylus.Library.CubicRoots
import ContractsStylus.Library.Edwards
import ContractsStylus.Library.ExchangeRate
import ContractsStylus.Library.Frames
import ContractsStylus.Library.GroupOrders
import ContractsStylus.Library.HashQueue
import ContractsStylus.Library.HashTree
import ContractsStylus.Library.InPlace
import ContractsStylus.Library.Ladder
import ContractsStylus.Library.LastWrite
import ContractsStylus.Library.NewtonSqrt
import ContractsStylus.Library.Positional
import ContractsStylus.Library.PowerResidues
import ContractsStylus.Library.Primality
import ContractsStylus.Library.Runs
import ContractsStylus.Library.Sponge
import ContractsStylus.Library.SubstitutionNetwork
import ContractsStylus.Library.SwapPop
import ContractsStylus.Library.Tally
import ContractsStylus.Library.Tickets
import ContractsStylus.Library.Vesting
import ContractsStylus.Library.While
import ContractsStylus.Library.Words
import ContractsStylus.Primitives
import ContractsStylus.Proxy.Beacon
import ContractsStylus.Proxy.BeaconRuns
import ContractsStylus.Proxy.Chain
import ContractsStylus.Proxy.Erc1967
import ContractsStylus.Proxy.UUPSRuns
import ContractsStylus.Proxy.UUPSUpgradeable
import ContractsStylus.Token.Erc1155
import ContractsStylus.Token.Erc1155Batches
import ContractsStylus.Token.Erc1155Example
import ContractsStylus.Token.Erc1155Supply
import ContractsStylus.Token.Erc20
import ContractsStylus.Token.Erc20Example
import ContractsStylus.Token.Erc20FlashMint
import ContractsStylus.Token.Erc20Permit
import ContractsStylus.Token.Erc20Runs
import ContractsStylus.Token.Erc20Wrapper
import ContractsStylus.Token.Erc2981
import ContractsStylus.Token.Erc4626
import ContractsStylus.Token.Erc4626Holders
import ContractsStylus.Token.Erc4626Limits
import ContractsStylus.Token.Erc4626Rate
import ContractsStylus.Token.Erc6909
import ContractsStylus.Token.Erc6909TokenSupply
import ContractsStylus.Token.Erc721
import ContractsStylus.Token.Erc721Consecutive
import ContractsStylus.Token.Erc721ConsecutiveBatches
import ContractsStylus.Token.Erc721ConsecutiveRefinement
import ContractsStylus.Token.Erc721Enumerable
import ContractsStylus.Token.Erc721EnumerableLists
import ContractsStylus.Token.Erc721Example
import ContractsStylus.Token.Erc721History
import ContractsStylus.Token.Erc721OwnerIndex
import ContractsStylus.Token.Erc721Public
import ContractsStylus.Token.Erc721Refinement
import ContractsStylus.Token.Erc721Runs
import ContractsStylus.Token.Erc721Wrapper
import ContractsStylus.Token.GuardedToken
import ContractsStylus.Token.Receiver
import ContractsStylus.Token.SafeErc20
import ContractsStylus.Token.SafeErc20Allowance
import ContractsStylus.Utils.Abi
import ContractsStylus.Utils.Address
import ContractsStylus.Utils.BitMap
import ContractsStylus.Utils.BitMapRuns
import ContractsStylus.Utils.Checkpoints
import ContractsStylus.Utils.CheckpointsRuns
import ContractsStylus.Utils.Ecdsa
import ContractsStylus.Utils.Eip712
import ContractsStylus.Utils.EnumerableSet
import ContractsStylus.Utils.EnumerableSetRuns
import ContractsStylus.Utils.Math
import ContractsStylus.Utils.Nonces
