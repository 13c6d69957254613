/-! # Services

The services that resources belong to, as price lists name them.
-/

namespace Deployment

/-- A service. -/
inductive Service
  | ec2
  | ebs
  | rds
  | s3
  | lambda
  | vpc
deriving DecidableEq, Repr

namespace Service

/-- The service that resources of a type belong to. -/
def ofType? : String → Option Service
  | "aws_instance" => some .ec2
  | "aws_ebs_volume" => some .ebs
  | "aws_db_instance" => some .rds
  | "aws_s3_bucket" => some .s3
  | "aws_lambda_function" => some .lambda
  | "aws_vpc" | "aws_subnet" | "aws_security_group" => some .vpc
  | _ => none

/-- The code of a service in price lists. -/
def code : Service → String
  | .ec2 => "AmazonEC2"
  | .ebs => "AmazonEBS"
  | .rds => "AmazonRDS"
  | .s3 => "AmazonS3"
  | .lambda => "AWSLambda"
  | .vpc => "AmazonVPC"

/-- Whether the resources of a service cost anything on their own. -/
def isPriced : Service → Bool
  | .vpc => false
  | _ => true

end Service

end Deployment
