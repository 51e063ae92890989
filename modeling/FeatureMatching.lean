import FeatureMatching.Correspondence
import FeatureMatching.Descriptor
import FeatureMatching.Descriptor.Quantization
import FeatureMatching.Event
import FeatureMatching.Fault
import FeatureMatching.Features
import FeatureMatching.Geometry.Filter
import FeatureMatching.Geometry.Projective
import FeatureMatching.Geometry.Residual
import FeatureMatching.Geometry.TwoView
import FeatureMatching.Json.Records
import FeatureMatching.Json.Value
import FeatureMatching.Keypoint
import FeatureMatching.Matching
import FeatureMatching.Numeric.AngleGrid
import FeatureMatching.Numeric.FixedPoint
import FeatureMatching.Numeric.Hypotenuse
import FeatureMatching.Numeric.Rounding
import FeatureMatching.Numeric.ShortestDecimal
import FeatureMatching.Numeric.Trigonometry
import FeatureMatching.Options
import FeatureMatching.Session
import FeatureMatching.Similarity.Angle
import FeatureMatching.Similarity.Comparison
import FeatureMatching.Similarity.Matrix
import FeatureMatching.Similarity.Nearest
import FeatureMatching.Similarity.Search
import FeatureMatching.Proofs.MutualMatching
import FeatureMatching.Proofs.AngleOrder
import FeatureMatching.Proofs.FewerCompetitors
import FeatureMatching.Proofs.Selections
import FeatureMatching.Proofs.Exchange
import FeatureMatching.Proofs.InlierHistory
import FeatureMatching.Proofs.Rejection
import FeatureMatching.Proofs.LooserThresholds
import FeatureMatching.Proofs.MatchCount
import FeatureMatching.Proofs.CheckedRun
import FeatureMatching.Proofs.Precedence
import FeatureMatching.Proofs.Float.Widening
import FeatureMatching.Proofs.Json.Fields
import FeatureMatching.Proofs.Json.RoundTrip
import FeatureMatching.Proofs.RowChoices
import FeatureMatching.Proofs.InertFeatures
import FeatureMatching.Proofs.MaskedEntries
import FeatureMatching.Proofs.Dependence
import FeatureMatching.Proofs.Float.Specials
import FeatureMatching.Proofs.NonFiniteData
import FeatureMatching.Proofs.ModelScale
import FeatureMatching.Proofs.ExactResidual
import FeatureMatching.Proofs.OrientationConvention
import FeatureMatching.Proofs.ExactSimilarity
import FeatureMatching.Proofs.Float.Root
import FeatureMatching.Proofs.BinOrder
import FeatureMatching.Proofs.Float.Negation
import FeatureMatching.Proofs.DescriptorRange
import FeatureMatching.Proofs.IsotropicFrame
import FeatureMatching.Proofs.MatrixStorage
